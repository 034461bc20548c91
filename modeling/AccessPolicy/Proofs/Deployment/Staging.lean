import AccessPolicy.Proofs.Deployment.Task

/-!
# Staging and moving into place

What the steps of writing do to a tree that is being written (`Task.Midway`). Staging a file
and moving one each keep the invariant (`Deployment.stage_cases`,
`Deployment.install_cases`), and so do the runs over all targets. From these,
`Deployment.writeAll_cases` : all targets are written, or where a move is refused, those
before it; all else is as it was, and no temporary file is left.
-/

namespace AccessPolicy.Deployment

open AccessPolicy.Action (Within IsPreorder)
open Session (Asks)

/-! ## Refusals -/

variable {plan : FaultPlan} {host : Host} {settings : Settings} {dir : Path} {s s' : Session}

/-- What the last call of a kind raised, as far as the plan or the change of owner say so. -/
def raisedBy (plan : FaultPlan) (host : Host) (settings : Settings) (calls : List Call)
    (c : Call) : Option Failure :=
  match plan c (calls.count c - 1) with
  | some e => some e
  | none =>
    match c, host.changeOwner settings.owner settings.group with
    | .setOwner, .error e => some e
    | _, _ => none

/-- The last call is one of those that stage a file, and what it raised is a refusal. -/
def IsRefused (plan : FaultPlan) (host : Host) (settings : Settings) (calls : List Call) : Prop :=
  ∃ c ∈ [Call.createTemporary, .setMode, .setOwner], calls.getLast? = some c ∧
    ∀ e, raisedBy plan host settings calls c = some e → e.IsRefusal

theorem isRefusal_of_call {c : Call} {e : Failure}
    (h : Action.call plan c s = (.error e, s'))
    (hr : IsRefused plan host settings s'.calls) : e.IsRefusal := by
  obtain ⟨c', -, hlast, href⟩ := hr
  obtain ⟨rfl, ⟨hok, -⟩ | ⟨e', he, hplan⟩⟩ := Action.call_cases h
  · exact absurd hok (by simp)
  · obtain rfl : c = c' := by simpa using hlast
    refine href e ?_
    simp [raisedBy, hplan, ← Except.error.inj he]

theorem isRefusal_of_changeOwner {calls : List Call} {e : Failure}
    (hplan : plan .setOwner (calls.count .setOwner) = none)
    (h : host.changeOwner settings.owner settings.group = .error e)
    (hr : IsRefused plan host settings (calls ++ [.setOwner])) : e.IsRefusal := by
  obtain ⟨c, -, hlast, href⟩ := hr
  obtain rfl : Call.setOwner = c := by simpa using hlast
  refine href e ?_
  simp [raisedBy, hplan, h]

theorem not_isRefused_of_write {calls : List Call} :
    ¬ IsRefused plan host settings (calls ++ [.write]) := by
  rintro ⟨c, hc, hlast, -⟩
  obtain rfl : Call.write = c := by simpa using hlast
  exact absurd hc (by decide)

/-! ## Staging -/

/-- The permission bits of a file that was staged. -/
def stagedMode (host : Host) (settings : Settings) (mode : Nat) : Nat :=
  if settings.owner.isGiven || settings.group.isGiven then host.keptBits mode else mode

theorem exists_temporaryName (t : FileTree) (a : Target) :
    ∃ name, t.freshName ("." ++ a.fileName ++ ".") = .char '.' :: name ∧
      (.char '.' :: name : Text) ≠ ".." := by
  obtain ⟨rest, hrest⟩ := t.freshName_eq_append ("." ++ a.fileName ++ ".")
  refine ⟨a.fileName ++ (".": Text) ++ rest, hrest, fun h => ?_⟩
  have htail : a.fileName ++ (".": Text) ++ rest = "." := (List.cons.inj h).2
  cases a
  · exact absurd (List.cons.inj htail).1 (by decide)
  · exact absurd (List.cons.inj htail).1 (by decide)

theorem createTemporary_cases {a : Target} {r : Except Failure Place}
    (h : createTemporary plan dir a s = (r, s')) :
    (∃ e, r = .error e ∧ s'.tree = s.tree ∧ s'.staged = s.staged) ∨
      ∃ d name, s.tree.walk [] dir.names = .ok d ∧
        r = .ok (d ++ [.char '.' :: name]) ∧
        s.tree.lookup (d ++ [.char '.' :: name]) = none ∧
        s'.tree = s.tree.set (d ++ [.char '.' :: name]) (.file [] 0o600) ∧
        s'.staged = s.staged := by
  rcases Action.bind_cases h with ⟨u, s₁, hcall, h⟩ | ⟨e, hcall, rfl⟩
  · obtain ⟨rfl, -⟩ := Action.call_cases hcall
    rw [Action.get_bind] at h
    rcases Action.bind_cases h with ⟨q, s₂, hq, h⟩ | ⟨e, hq, rfl⟩
    · obtain ⟨rfl, ⟨q', hq', hres⟩ | ⟨e, he, -⟩⟩ := Action.query_cases hq
      · obtain rfl := Except.ok.inj hq'
        obtain ⟨name, hname, hne⟩ := exists_temporaryName s.tree a
        obtain ⟨d, hd, -, rfl⟩ := FileTree.walk_child (hname ▸ hne) (FileTree.walk_of_resolve hres)
        have hnone := s.tree.lookup_freshName d ("." ++ a.fileName ++ ".")
        rw [Action.modify_bind] at h
        obtain ⟨rfl, rfl⟩ := Action.pure_cases h
        rw [hname] at hnone ⊢
        exact .inr ⟨d, name, hd, rfl, hnone, rfl, rfl⟩
      · exact absurd he (by simp)
    · obtain ⟨rfl, -⟩ := Action.query_cases hq
      exact .inl ⟨e, rfl, rfl, rfl⟩
  · obtain ⟨rfl, -⟩ := Action.call_cases hcall
    exact .inl ⟨e, rfl, rfl, rfl⟩

/-- Nothing was staged, and the tree changed at one place at most, where no directory was
made. -/
structure ChangesAt (q : Place) (s s' : Session) : Prop where
  staged : s'.staged = s.staged
  other : ∀ p, q ≠ p → s'.tree.lookup p = s.tree.lookup p
  undirected : s.tree.lookup q ≠ some .directory → s'.tree.lookup q ≠ some .directory

theorem isPreorder_changesAt (q : Place) : IsPreorder (ChangesAt q) :=
  ⟨fun _ => ⟨rfl, fun _ _ => rfl, id⟩, fun h h' =>
    ⟨h'.staged.trans h.staged, fun p hp => (h'.other p hp).trans (h.other p hp),
      h'.undirected ∘ h.undirected⟩⟩

theorem changesAt_call (q : Place) (plan : FaultPlan) (c : Call) :
    Within (ChangesAt q) (Action.call plan c) := by
  intro s r s' h
  rw [(Action.call_cases h).1]
  exact ⟨rfl, fun _ _ => rfl, id⟩

theorem changesAt_setMode (q : Place) (mode : Nat) :
    Within (ChangesAt q) (Action.modify fun s => { s with tree := s.tree.setMode q mode }) := by
  refine Action.within_modify fun s => ?_
  cases hq : s.tree.lookup q with
  | none => simpa [FileTree.setMode, hq] using (isPreorder_changesAt q).refl s
  | some n =>
    cases n with
    | directory => simpa [FileTree.setMode, hq] using (isPreorder_changesAt q).refl s
    | file bytes mode' =>
      have hset := FileTree.lookup_setMode s.tree hq mode
      exact ⟨rfl, fun p hp => by rw [hset, if_neg hp], fun _ => by simp [hset]⟩

theorem within_fillTemporary {q : Place} (hq : q ≠ []) (plan : FaultPlan) (host : Host)
    (settings : Settings) (text : Text) :
    Within (ChangesAt q) (fillTemporary plan host settings text q) := by
  have hR := isPreorder_changesAt q
  refine hR.within_bind (changesAt_call q plan .write) fun _ => ?_
  refine hR.within_bind (hR.within_ofFault _) fun bytes => ?_
  refine hR.within_bind (Action.within_modify fun s => ⟨rfl, fun p hp => ?_, fun _ => ?_⟩)
    fun _ => ?_
  · rw [FileTree.lookup_set _ _ _ hq, if_neg hp]
  · simp [FileTree.lookup_set _ _ _ hq]
  refine hR.within_bind (changesAt_call q plan .setMode) fun _ => ?_
  refine hR.within_bind (hR.within_ofFault _) fun mode => ?_
  refine hR.within_bind (changesAt_setMode q mode) fun _ => ?_
  split
  · refine hR.within_bind (changesAt_call q plan .setOwner) fun _ => ?_
    split
    · exact changesAt_setMode q _
    · exact hR.within_fail _
  · exact hR.within_pure _

/-- A temporary file that was filled has the text and the bits that the owner leaves. One that
was refused at its bits or its owner ends in a refusal. -/
theorem fillTemporary_cases {q : Place} (hq : q ≠ []) {mode : Nat}
    (hm : modeBits settings.fileMode = .ok mode) {text : Text} {r : Except Failure Unit}
    (h : fillTemporary plan host settings text q s = (r, s')) :
    (r = .ok () ∧ ∃ bytes, encoded text = .ok bytes ∧
      s'.tree.lookup q = some (.file bytes (stagedMode host settings mode))) ∨
      ∃ e, r = .error e ∧ (IsRefused plan host settings s'.calls → e.IsRefusal) := by
  rcases Action.bind_cases h with ⟨u, s₁, hwrite, h⟩ | ⟨e, hwrite, rfl⟩
  swap
  · exact .inr ⟨e, rfl, isRefusal_of_call hwrite⟩
  obtain ⟨rfl, -⟩ := Action.call_cases hwrite
  rcases Action.bind_cases h with ⟨bytes, s₂, henc, h⟩ | ⟨e, henc, rfl⟩
  swap
  · obtain ⟨rfl, -⟩ := Action.ofFault_cases henc
    exact .inr ⟨e, rfl, fun hr => absurd hr not_isRefused_of_write⟩
  obtain ⟨rfl, ⟨bytes', hbytes, hb⟩ | ⟨f, -, hf⟩⟩ := Action.ofFault_cases henc
  swap
  · exact absurd hf (by simp)
  obtain rfl := Except.ok.inj hb
  rw [Action.modify_bind] at h
  rcases Action.bind_cases h with ⟨u, s₃, hset, h⟩ | ⟨e, hset, rfl⟩
  swap
  · exact .inr ⟨e, rfl, isRefusal_of_call hset⟩
  obtain ⟨rfl, -⟩ := Action.call_cases hset
  rw [hm, Action.ofFault_bind, Action.modify_bind] at h
  have hfile : (s.tree.set q (.file bytes 0o600)).lookup q = some (.file bytes 0o600) := by
    rw [FileTree.lookup_set _ _ _ hq, if_pos rfl]
  have hbits := FileTree.lookup_setMode _ hfile mode q
  rw [if_pos rfl] at hbits
  split at h
  · rename_i hgiven
    rcases Action.bind_cases h with ⟨u, s₄, howner, h⟩ | ⟨e, howner, rfl⟩
    swap
    · exact .inr ⟨e, rfl, isRefusal_of_call howner⟩
    obtain ⟨rfl, ⟨-, hplan⟩ | ⟨e, he, -⟩⟩ := Action.call_cases howner
    swap
    · exact absurd he (by simp)
    cases hchange : host.changeOwner settings.owner settings.group with
    | ok u =>
      rw [hchange] at h
      obtain ⟨rfl, rfl⟩ := Action.modify_cases h
      refine .inl ⟨rfl, bytes, hbytes, ?_⟩
      have hkept := FileTree.lookup_setMode _ hbits (host.keptBits mode) q
      rw [if_pos rfl] at hkept
      rw [stagedMode, if_pos hgiven]
      exact hkept
    | error e =>
      rw [hchange] at h
      obtain ⟨rfl, rfl⟩ := Action.fail_cases h
      exact .inr ⟨e, rfl, isRefusal_of_changeOwner hplan hchange⟩
  · rename_i hgiven
    obtain ⟨rfl, rfl⟩ := Action.pure_cases h
    refine .inl ⟨rfl, bytes, hbytes, ?_⟩
    rw [stagedMode, if_neg hgiven]
    exact hbits

/-- Fills a temporary file, which goes again where it cannot be filled. -/
def fillOrDiscard (plan : FaultPlan) (host : Host) (settings : Settings) (path : Path)
    (text : Text) (temporary : Place) : Action Unit :=
  (fillTemporary plan host settings text temporary).onFailure fun e => do
    match e with
    | .system message =>
      discard temporary
      Action.fail (.reported ("Failed to write " ++ path.text ++ ": " ++ message))
    | .lookup message =>
      discard temporary
      Action.fail (.reported ("Failed to set ownership on " ++ path.text ++ ": " ++ message))
    | e => Action.fail e

theorem within_fillOrDiscard {q : Place} (hq : q ≠ []) (plan : FaultPlan) (host : Host)
    (settings : Settings) (path : Path) (text : Text) :
    Within (ChangesAt q) (fillOrDiscard plan host settings path text q) := by
  have hR := isPreorder_changesAt q
  have hdiscard : Within (ChangesAt q) (discard q) :=
    Action.within_modify fun s => ⟨rfl, fun p hp => by rw [FileTree.lookup_erase _ _ hq, if_neg hp],
      fun _ => by simp [FileTree.lookup_erase _ _ hq]⟩
  refine hR.within_onFailure (within_fillTemporary hq plan host settings text) fun e => ?_
  cases e with
  | system message => exact hR.within_bind hdiscard fun _ => hR.within_fail _
  | lookup message => exact hR.within_bind hdiscard fun _ => hR.within_fail _
  | reported message => exact hR.within_fail _
  | fault f => exact hR.within_fail _

theorem fillOrDiscard_cases {q : Place} (hq : q ≠ []) {mode : Nat}
    (hm : modeBits settings.fileMode = .ok mode) {path : Path} {text : Text}
    {r : Except Failure Unit}
    (h : fillOrDiscard plan host settings path text q s = (r, s')) :
    (r = .ok () ∧ ∃ bytes, encoded text = .ok bytes ∧
        s'.tree.lookup q = some (.file bytes (stagedMode host settings mode))) ∨
      ∃ e, r = .error e ∧
        (IsRefused plan host settings s'.calls → s'.tree.lookup q = none) := by
  rcases Action.onFailure_cases h with ⟨u, hu, rfl⟩ | ⟨e, s₁, he, hh⟩
  · rcases fillTemporary_cases hq hm hu with ⟨-, hfilled⟩ | ⟨e, he, -⟩
    · exact .inl ⟨rfl, hfilled⟩
    · exact absurd he (by simp)
  · have hrefusal : IsRefused plan host settings s₁.calls → e.IsRefusal := by
      rcases fillTemporary_cases hq hm he with ⟨hok, -⟩ | ⟨e', he', hr⟩
      · exact absurd hok (by simp)
      · rwa [Except.error.inj he']
    have herased : (s₁.tree.erase q).lookup q = none := by
      rw [FileTree.lookup_erase _ _ hq, if_pos rfl]
    cases e with
    | system message =>
      simp only [discard] at hh
      rw [Action.modify_bind] at hh
      obtain ⟨rfl, rfl⟩ := Action.fail_cases hh
      exact .inr ⟨_, rfl, fun _ => herased⟩
    | lookup message =>
      simp only [discard] at hh
      rw [Action.modify_bind] at hh
      obtain ⟨rfl, rfl⟩ := Action.fail_cases hh
      exact .inr ⟨_, rfl, fun _ => herased⟩
    | reported message =>
      obtain ⟨rfl, rfl⟩ := Action.fail_cases hh
      exact .inr ⟨_, rfl, fun hr => (hrefusal hr).elim⟩
    | fault f =>
      obtain ⟨rfl, rfl⟩ := Action.fail_cases hh
      exact .inr ⟨_, rfl, fun hr => (hrefusal hr).elim⟩

variable {w : Task} {done rest : List Target} {r : Except Failure Unit} {mode : Nat}

/-- Staging one file keeps the invariant, also where it is refused. -/
theorem stage_cases (hm : modeBits settings.fileMode = .ok mode)
    (hw : w.mode = stagedMode host settings mode) {a : Target}
    (hmid : w.Midway done rest s.tree s.staged)
    (h : stage plan host settings w.dir w.text a s = (r, s')) :
    (r = .ok () ∧ w.Midway done (rest ++ [a]) s'.tree s'.staged) ∨
      ∃ e, r = .error e ∧
        (IsRefused plan host settings s'.calls → w.Midway done rest s'.tree s'.staged) := by
  unfold stage at h
  rcases Action.bind_cases h with ⟨q, s₁, hq, h⟩ | ⟨e, hq, rfl⟩
  · obtain ⟨e, he, -⟩ | ⟨d, name, hd, hok, hnone, htree, hstaged⟩ := createTemporary_cases hq
    · exact absurd he (by simp)
    have hplace : d = w.place := by
      have hbase := FileTree.walk_mono hmid.reflectsDirectories _ _ _ hd
      rw [w.stands] at hbase
      exact (Except.ok.inj hbase).symm
    obtain rfl : q = w.place ++ [.char '.' :: name] := by rw [Except.ok.inj hok, hplace]
    rw [hplace] at hnone htree
    have hroot : w.place ++ [.char '.' :: name] ≠ [] := by simp
    have hsame : ∀ p, w.place ++ [.char '.' :: name] ≠ p →
        s₁.tree.lookup p = s.tree.lookup p := by
      intro p hp
      rw [htree, FileTree.lookup_set _ _ _ hroot, if_neg hp]
    change (fillOrDiscard plan host settings _ _ _ >>= _) _ = _ at h
    rcases Action.bind_cases h with ⟨u, s₂, hfill, h⟩ | ⟨e, hfill, rfl⟩
    · have hchange := within_fillOrDiscard hroot plan host settings _ _ _ _ _ hfill
      rcases fillOrDiscard_cases hroot hm hfill with ⟨-, bytes, hb, hfile⟩ | ⟨e, he, -⟩
      · obtain ⟨rfl, rfl⟩ := Action.modify_cases h
        rw [← hw] at hfile
        rw [hchange.staged, hstaged]
        exact .inl ⟨rfl, hmid.staged_append rfl hnone hb hfile
          fun p hp => (hchange.other p hp).trans (hsame p hp)⟩
      · exact absurd he (by simp)
    · have hchange := within_fillOrDiscard hroot plan host settings _ _ _ _ _ hfill
      rcases fillOrDiscard_cases hroot hm hfill with ⟨hok, -⟩ | ⟨e', -, hgone⟩
      · exact absurd hok (by simp)
      · refine .inr ⟨e, rfl, fun hr => ?_⟩
        rw [hchange.staged, hstaged]
        refine hmid.congr fun p => ?_
        by_cases hp : w.place ++ [.char '.' :: name] = p
        · rw [← hp, hgone hr, hnone]
        · exact (hchange.other p hp).trans (hsame p hp)
  · rcases createTemporary_cases hq with ⟨e', -, htree, hstaged⟩ | ⟨d, name, -, hok, -⟩
    · refine .inr ⟨e, rfl, fun _ => ?_⟩
      rw [htree, hstaged]
      exact hmid
    · exact absurd hok (by simp)

theorem forEach_stage_cases (hm : modeBits settings.fileMode = .ok mode)
    (hw : w.mode = stagedMode host settings mode) :
    ∀ {targets rest : List Target} {s s' : Session} {r : Except Failure Unit},
      w.Midway done rest s.tree s.staged →
      Action.forEach (stage plan host settings w.dir w.text) targets s = (r, s') →
      (r = .ok () ∧ w.Midway done (rest ++ targets) s'.tree s'.staged) ∨
        ∃ e, r = .error e ∧ (IsRefused plan host settings s'.calls →
          ∃ rest', w.Midway done rest' s'.tree s'.staged)
  | [], rest, s, s', r, hmid, h => by
    obtain ⟨rfl, rfl⟩ := Action.pure_cases h
    rw [List.append_nil]
    exact .inl ⟨rfl, hmid⟩
  | a :: targets, rest, s, s', r, hmid, h => by
    rcases Action.bind_cases h with ⟨u, s₁, ha, h⟩ | ⟨e, ha, rfl⟩
    · rcases stage_cases hm hw hmid ha with ⟨-, hmid₁⟩ | ⟨e, he, -⟩
      · rw [List.append_cons]
        exact forEach_stage_cases hm hw hmid₁ h
      · exact absurd he (by simp)
    · rcases stage_cases hm hw hmid ha with ⟨hok, -⟩ | ⟨e', -, hkept⟩
      · exact absurd hok (by simp)
      · exact .inr ⟨e, rfl, fun hr => ⟨rest, hkept hr⟩⟩

/-! ## Moving into place -/

/-- Moving one file keeps the invariant, also where it is refused. -/
theorem install_cases {a : Target} {e : Staged} {staged : List Staged}
    (hs : s.staged = e :: staged) (hmid : w.Midway done (a :: rest) s.tree s.staged)
    (hnew : a ∉ done) (h : install plan e s = (r, s')) :
    s'.calls = s.calls ++ [.rename] ∧
      ((r = .ok () ∧ s'.staged = staged ∧ w.Midway (done ++ [a]) rest s'.tree s'.staged) ∨
        ∃ f, r = .error f ∧ w.Midway done (a :: rest) s'.tree s'.staged) := by
  rcases Action.bind_cases h with ⟨u, s₁, hcall, h⟩ | ⟨f, hcall, rfl⟩
  · obtain ⟨rfl, -⟩ := Action.call_cases hcall
    rcases Action.bind_cases h with ⟨u, s₂, hren, h⟩ | ⟨f, hren, rfl⟩
    · rcases Action.change_cases hren with ⟨t, -, ht, rfl⟩ | ⟨-, f, hf, -⟩
      · rw [Action.modify_bind] at h
        obtain ⟨rfl, rfl⟩ := Action.modify_cases h
        have hdrop : s.staged.drop 1 = staged := by rw [hs, List.drop_one, List.tail_cons]
        rw [hs] at hmid
        refine ⟨rfl, .inl ⟨rfl, hdrop, ?_⟩⟩
        rw [hdrop]
        exact hmid.moved hnew ht
      · exact absurd hf (by simp)
    · rcases Action.change_cases hren with ⟨t, hok, -, -⟩ | ⟨rfl, f', -, -⟩
      · exact absurd hok (by simp)
      · exact ⟨rfl, .inr ⟨f, rfl, hmid⟩⟩
  · obtain ⟨rfl, -⟩ := Action.call_cases hcall
    exact ⟨rfl, .inr ⟨f, rfl, hmid⟩⟩

/-- Where no move is refused, all targets are written, and else exactly those before it. -/
theorem forEach_install_cases :
    ∀ {staged : List Staged} {done rest : List Target} {s s' : Session}
      {r : Except Failure Unit},
      s.staged = staged → w.Midway done rest s.tree s.staged → (done ++ rest).Nodup →
      Action.forEach (install plan) staged s = (r, s') →
      (r = .ok () ∧ (staged = [] ∨ s'.calls.getLast? = some .rename) ∧
        w.Midway (done ++ rest) [] s'.tree s'.staged) ∨
        ∃ e n, r = .error e ∧ n < rest.length ∧ s'.calls.getLast? = some .rename ∧
          s'.calls.count .rename = s.calls.count .rename + n + 1 ∧
          w.Midway (done ++ rest.take n) (rest.drop n) s'.tree s'.staged
  | [], done, rest, s, s', r, hs, hmid, _, h => by
    obtain ⟨rfl, rfl⟩ := Action.pure_cases h
    have hholds := hmid.holds
    rw [hs] at hholds
    obtain rfl := List.forall₂_nil_right_iff.1 hholds
    rw [List.append_nil]
    exact .inl ⟨rfl, .inl rfl, hmid⟩
  | e :: staged, done, [], s, s', r, hs, hmid, _, h => by
    have hholds := hmid.holds
    rw [hs] at hholds
    exact absurd hholds (by simp)
  | e :: staged, done, a :: rest, s, s', r, hs, hmid, hnodup, h => by
    have hnew : a ∉ done := fun hd =>
      (List.nodup_append.1 hnodup).2.2 a hd a List.mem_cons_self rfl
    rcases Action.bind_cases h with ⟨u, s₁, ha, h⟩ | ⟨f, ha, rfl⟩
    · obtain ⟨hcalls, ⟨-, hs₁, hmid₁⟩ | ⟨f, hf, -⟩⟩ := install_cases hs hmid hnew ha
      · rw [List.append_cons] at hnodup
        rcases forEach_install_cases hs₁ hmid₁ hnodup h with
          ⟨rfl, hend, hmid'⟩ | ⟨f, n, rfl, hn, hlast, hcount, hmid'⟩
        · refine .inl ⟨rfl, .inr ?_, by simpa using hmid'⟩
          rcases hend with rfl | hlast
          · obtain ⟨-, rfl⟩ := Action.pure_cases h
            rw [hcalls]
            simp
          · exact hlast
        · refine .inr ⟨f, n + 1, rfl, by simpa using hn, hlast, ?_, ?_⟩
          · rw [hcount, hcalls, List.count_append, List.count_singleton_self]
            omega
          · simpa using hmid'
      · exact absurd hf (by simp)
    · obtain ⟨hcalls, ⟨hok, -⟩ | ⟨f', -, hmid'⟩⟩ := install_cases hs hmid hnew ha
      · exact absurd hok (by simp)
      · refine .inr ⟨f, 0, rfl, by simp, ?_, ?_, by simpa using hmid'⟩
        · rw [hcalls]
          simp
        · rw [hcalls, List.count_append, List.count_singleton_self]

/-! ## Discarding -/

theorem lookup_foldl_erase (q : Place) :
    ∀ (staged : List Staged) (t : FileTree), (∀ e ∈ staged, e.temporary ≠ []) →
      (staged.foldl (fun t e => t.erase e.temporary) t).lookup q =
        if q ∈ staged.map Staged.temporary then none else t.lookup q
  | [], t, _ => by simp
  | e :: staged, t, h => by
    rw [List.foldl_cons, lookup_foldl_erase q staged _ fun e' he' => h e' (by simp [he']),
      FileTree.lookup_erase _ _ (h e (by simp)), List.map_cons]
    by_cases hq : q ∈ staged.map Staged.temporary
    · simp [hq]
    · by_cases he : e.temporary = q
      · simp [he]
      · have hne : ¬ q = e.temporary := fun h => he h.symm
        simp [hq, he, hne]

theorem forEach_discard :
    ∀ (staged : List Staged) (s : Session),
      Action.forEach (fun e => discard e.temporary) staged s =
        (.ok (), { s with tree := staged.foldl (fun t e => t.erase e.temporary) s.tree })
  | [], _ => rfl
  | e :: staged, s => forEach_discard staged { s with tree := s.tree.erase e.temporary }

theorem discardStaged_eq (s : Session) :
    discardStaged s = (.ok (), { s with
      tree := s.staged.foldl (fun t e => t.erase e.temporary) s.tree
      staged := [] }) := by
  unfold discardStaged
  rw [Action.get_bind, Action.bind_of_ok (forEach_discard s.staged s)]
  rfl

/-- Discarding leaves the targets that were moved, and all else as it was. -/
theorem Task.Midway.discardStaged (hmid : w.Midway done rest s.tree s.staged) :
    w.Midway done [] (discardStaged s).2.tree [] := by
  rw [discardStaged_eq]
  refine hmid.discarded fun q => lookup_foldl_erase q s.staged s.tree fun e he => ?_
  obtain ⟨a, -, hae⟩ := exists_of_mem_forall₂ hmid.holds e he
  obtain ⟨name, hname⟩ := hae.hidden
  rw [hname]
  simp

/-! ## The calls -/

/-- The calls that stage a file. -/
def stagingCalls : List Call := [.createTemporary, .write, .setMode, .setOwner]

theorem calls_createTemporary {a : Target} {r : Except Failure Place}
    (h : createTemporary plan dir a s = (r, s')) : s'.calls = s.calls ++ [.createTemporary] := by
  have hstart : ∃ cs, s'.calls = s.calls ++ .createTemporary :: cs ∧ ∀ c ∈ cs, c ∈ [] := by
    have hR := Action.isPreorder_asks []
    unfold createTemporary at h
    refine Action.calls_of_call_bind (fun _ => ?_) h
    refine hR.within_bind hR.within_get fun s => ?_
    refine hR.within_bind (hR.within_query _ _) fun place => ?_
    exact hR.within_bind (Action.within_modify fun _ => .of_eq rfl) fun _ => hR.within_pure _
  obtain ⟨cs, hcs, hk⟩ := hstart
  rw [hcs, List.eq_nil_iff_forall_not_mem.2 fun c hc => absurd (hk c hc) (by simp)]

theorem asks_createTemporary (plan : FaultPlan) (dir : Path) (a : Target) :
    Within (Asks stagingCalls) (createTemporary plan dir a) := fun _ _ _ h =>
  ⟨[.createTemporary], calls_createTemporary h, by decide⟩

/-- Filling a temporary file starts with writing it. -/
theorem calls_fillTemporary {text : Text} {q : Place} {r : Except Failure Unit}
    (h : fillTemporary plan host settings text q s = (r, s')) :
    ∃ cs, s'.calls = s.calls ++ .write :: cs ∧ ∀ c ∈ cs, c ∈ stagingCalls := by
  have hR := Action.isPreorder_asks stagingCalls
  refine Action.calls_of_call_bind (fun _ => ?_) h
  refine hR.within_bind (hR.within_ofFault _) fun bytes => ?_
  refine hR.within_bind (Action.within_modify fun _ => .of_eq rfl) fun _ => ?_
  refine hR.within_bind (Action.asks_call plan (by decide)) fun _ => ?_
  refine hR.within_bind (hR.within_ofFault _) fun mode => ?_
  refine hR.within_bind (Action.within_modify fun _ => .of_eq rfl) fun _ => ?_
  split
  · refine hR.within_bind (Action.asks_call plan (by decide)) fun _ => ?_
    split
    · exact Action.within_modify fun _ => .of_eq rfl
    · exact hR.within_fail _
  · exact hR.within_pure _

theorem asks_fillTemporary (plan : FaultPlan) (host : Host) (settings : Settings) (text : Text)
    (q : Place) : Within (Asks stagingCalls) (fillTemporary plan host settings text q) := by
  intro s r s' h
  obtain ⟨cs, hcs, hk⟩ := calls_fillTemporary h
  exact ⟨.write :: cs, hcs, List.forall_mem_cons.2 ⟨by decide, hk⟩⟩

theorem asks_stage (plan : FaultPlan) (host : Host) (settings : Settings) (dir : Path)
    (text : Target → Text) (a : Target) :
    Within (Asks stagingCalls) (stage plan host settings dir text a) := by
  have hR := Action.isPreorder_asks stagingCalls
  have hdiscard : ∀ q, Within (Asks stagingCalls) (discard q) := fun q =>
    Action.within_modify fun _ => .of_eq rfl
  refine hR.within_bind (asks_createTemporary plan dir a) fun q => ?_
  refine hR.within_bind (hR.within_onFailure (asks_fillTemporary plan host settings _ q)
    fun e => ?_) fun _ => Action.within_modify fun _ => .of_eq rfl
  cases e with
  | system message => exact hR.within_bind (hdiscard q) fun _ => hR.within_fail _
  | lookup message => exact hR.within_bind (hdiscard q) fun _ => hR.within_fail _
  | reported message => exact hR.within_fail _
  | fault f => exact hR.within_fail _

theorem asks_stage_rename (plan : FaultPlan) (host : Host) (settings : Settings) (dir : Path)
    (text : Target → Text) (a : Target) :
    Within (Asks (.rename :: stagingCalls)) (stage plan host settings dir text a) := by
  intro s r s' h
  obtain ⟨cs, hcs, hk⟩ := asks_stage plan host settings dir text a _ _ _ h
  exact ⟨cs, hcs, fun c hc => List.mem_cons_of_mem _ (hk c hc)⟩

theorem asks_install (plan : FaultPlan) (e : Staged) :
    Within (Asks (.rename :: stagingCalls)) (install plan e) := by
  have hR := Action.isPreorder_asks (.rename :: stagingCalls)
  refine hR.within_bind (Action.asks_call plan List.mem_cons_self) fun _ => ?_
  refine hR.within_bind (Action.asks_change _ _) fun _ => ?_
  exact hR.within_bind (Action.within_modify fun _ => .of_eq rfl) fun _ =>
    Action.within_modify fun _ => .of_eq rfl

theorem asks_writeAll (plan : FaultPlan) (host : Host) (settings : Settings) (dir : Path)
    (text : Target → Text) (targets : List Target) :
    Within (Asks (.rename :: stagingCalls)) (writeAll plan host settings dir text targets) := by
  have hR := Action.isPreorder_asks (.rename :: stagingCalls)
  refine hR.within_endingWith (hR.within_onFailure ?_ fun e => ?_) ?_
  · refine hR.within_bind (hR.within_forEach (asks_stage_rename plan host settings dir text)
      targets) fun _ => ?_
    exact hR.within_bind hR.within_get fun s => hR.within_forEach (asks_install plan) s.staged
  · cases e with
    | system message =>
      refine hR.within_bind hR.within_get fun s => ?_
      split
      · exact hR.within_fail _
      · exact hR.within_fail _
    | lookup message => exact hR.within_fail _
    | reported message => exact hR.within_fail _
    | fault f => exact hR.within_fail _
  · intro s r s' h
    rw [discardStaged_eq] at h
    obtain ⟨-, rfl⟩ := Prod.mk.inj h
    exact .of_eq rfl

/-! ## Writing all -/

/-- Stages all files and then moves them into place. -/
def stageAndInstall (plan : FaultPlan) (host : Host) (settings : Settings) (dir : Path)
    (text : Target → Text) (targets : List Target) : Action Unit := do
  Action.forEach (stage plan host settings dir text) targets
  Action.forEach (install plan) (← Action.get).staged

variable {text : Target → Text}

theorem stageAndInstall_cons {a : Target} {targets : List Target} :
    stageAndInstall plan host settings dir text (a :: targets) s =
      (stage plan host settings dir text a >>= fun _ =>
        stageAndInstall plan host settings dir text targets) s := by
  simp only [stageAndInstall, Action.forEach, Bind.bind, Action.bind]
  rcases stage plan host settings dir text a s with ⟨_ | _, s₁⟩
  · rfl
  · rfl

theorem stageAndInstall_cases (hm : modeBits settings.fileMode = .ok mode)
    (hw : w.mode = stagedMode host settings mode) {targets : List Target}
    (hmid : w.Midway [] [] s.tree s.staged) (hnodup : targets.Nodup)
    (hmoves : .rename ∉ s.calls)
    (h : stageAndInstall plan host settings w.dir w.text targets s = (r, s')) :
    (r = .ok () ∧ (targets = [] ∨ s'.calls.getLast? = some .rename) ∧
        w.Midway targets [] s'.tree s'.staged) ∨
      (∃ e, r = .error e ∧ .rename ∉ s'.calls ∧ (IsRefused plan host settings s'.calls →
        ∃ rest, w.Midway [] rest s'.tree s'.staged)) ∨
      ∃ e n, r = .error e ∧ n < targets.length ∧ s'.calls.getLast? = some .rename ∧
        s'.calls.count .rename = n + 1 ∧
        w.Midway (targets.take n) (targets.drop n) s'.tree s'.staged := by
  have hR := Action.isPreorder_asks stagingCalls
  have hstaging : ∀ {x s₁}, Action.forEach (stage plan host settings w.dir w.text) targets s =
      (x, s₁) → .rename ∉ s₁.calls := by
    intro x s₁ hx hren
    have hasks := hR.within_forEach (asks_stage plan host settings w.dir w.text) targets _ _ _ hx
    rcases hasks.mem hren with hold | hnew
    · exact hmoves hold
    · exact absurd hnew (by decide)
  rcases Action.bind_cases h with ⟨u, s₁, hst, h⟩ | ⟨e, hst, rfl⟩
  · rcases forEach_stage_cases hm hw hmid hst with ⟨-, hmid₁⟩ | ⟨e, he, -⟩
    swap
    · exact absurd he (by simp)
    rw [Action.get_bind] at h
    rw [List.nil_append] at hmid₁
    rcases forEach_install_cases rfl hmid₁ (by simpa using hnodup) h with
      ⟨rfl, hend, hmid'⟩ | ⟨e, n, rfl, hn, hlast, hcount, hmid'⟩
    · refine .inl ⟨rfl, hend.imp_left fun hnil => ?_, hmid'⟩
      have hholds := hmid₁.holds
      rw [hnil] at hholds
      exact List.forall₂_nil_right_iff.1 hholds
    · rw [List.count_eq_zero.2 (hstaging hst), Nat.zero_add] at hcount
      exact .inr (.inr ⟨e, n, rfl, hn, hlast, hcount, hmid'⟩)
  · rcases forEach_stage_cases hm hw hmid hst with ⟨hok, -⟩ | ⟨e', -, hkept⟩
    · exact absurd hok (by simp)
    · exact .inr (.inl ⟨e, rfl, hstaging hst, hkept⟩)

/-- What a failure of staging and moving is reported as : a refusal is worded for the first file
that is still staged. -/
def worded : List Staged → Failure → Failure
  | [], .system _ => .fault .nothingStaged
  | first :: _, .system message =>
    .reported ("Failed to write " ++ first.target.text ++ ": " ++ message)
  | _, e => e

/-- Writing all ends as staging and moving does, and then what is still staged is removed. -/
theorem writeAll_body {targets : List Target}
    (h : writeAll plan host settings dir text targets s = (r, s')) :
    ∃ x s₁, stageAndInstall plan host settings dir text targets s = (x, s₁) ∧
      s' = (discardStaged s₁).2 ∧ r = x.mapError (worded s₁.staged) := by
  obtain ⟨s₁, hbody, rfl⟩ := Action.endingWith_cases h
  rcases Action.onFailure_cases hbody with ⟨u, hu, rfl⟩ | ⟨e, s₂, he, hh⟩
  · exact ⟨_, _, hu, rfl, rfl⟩
  · have hfails : r = .error (worded s₂.staged e) ∧ s₁ = s₂ := by
      cases e with
      | system message =>
        simp only at hh
        rw [Action.get_bind] at hh
        cases hst : s₂.staged with
        | nil =>
          rw [hst] at hh
          exact Action.fail_cases hh
        | cons first others =>
          rw [hst] at hh
          exact Action.fail_cases hh
      | lookup message => cases s₂.staged <;> exact Action.fail_cases hh
      | reported message => cases s₂.staged <;> exact Action.fail_cases hh
      | fault f => cases s₂.staged <;> exact Action.fail_cases hh
    obtain ⟨rfl, rfl⟩ := hfails
    exact ⟨_, _, he, rfl, rfl⟩

/-- Where writing is not refused, all targets are written, and else those before the refused
move; all else is as it was. -/
theorem writeAll_cases (hm : modeBits settings.fileMode = .ok mode)
    (hw : w.mode = stagedMode host settings mode) {targets : List Target}
    (hmid : w.Midway [] [] s.tree s.staged) (hnodup : targets.Nodup)
    (hmoves : .rename ∉ s.calls)
    (h : writeAll plan host settings w.dir w.text targets s = (r, s')) :
    (r = .ok () ∧ (targets = [] ∨ s'.calls.getLast? = some .rename) ∧
        w.Midway targets [] s'.tree []) ∨
      (∃ e, r = .error e ∧ .rename ∉ s'.calls ∧
        (IsRefused plan host settings s'.calls → w.Midway [] [] s'.tree [])) ∨
      ∃ e n, r = .error e ∧ n < targets.length ∧ s'.calls.getLast? = some .rename ∧
        s'.calls.count .rename = n + 1 ∧ w.Midway (targets.take n) [] s'.tree [] := by
  obtain ⟨x, s₁, hx, rfl, rfl⟩ := writeAll_body h
  have hcalls : (discardStaged s₁).2.calls = s₁.calls := by rw [discardStaged_eq]
  rw [hcalls]
  rcases stageAndInstall_cases hm hw hmid hnodup hmoves hx with
    ⟨rfl, hend, hmid'⟩ | ⟨e, rfl, hnone, hkept⟩ | ⟨e, n, rfl, hn, hlast, hcount, hmid'⟩
  · exact .inl ⟨rfl, hend, hmid'.discardStaged⟩
  · refine .inr (.inl ⟨_, rfl, hnone, fun hr => ?_⟩)
    obtain ⟨rest, hmid'⟩ := hkept hr
    exact hmid'.discardStaged
  · exact .inr (.inr ⟨_, n, rfl, hn, hlast, hcount, hmid'.discardStaged⟩)

end AccessPolicy.Deployment
