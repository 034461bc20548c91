import AccessPolicy.Deployment.Run
import AccessPolicy.Proofs.Files.Session
import AccessPolicy.Proofs.Files.Tree

/-!
# Before anything is written

A deployment first compares the files with their new texts and then makes their directory.
Comparing only reads (`Deployment.within_findChanged`), and what it finds depends on the
tree alone : the targets that `Deployment.changed` lists (`Deployment.findChanged_ok`). Where it
succeeds, each file is absent or is read as a text (`Deployment.shows_of_findChanged`).
Making the directory adds directories on the way to it and nothing else
(`Deployment.within_makeDirectories`), and where it succeeds the directory is there
(`Deployment.makeDirectories_ok`).
-/

namespace AccessPolicy

theorem Target.mem_all (target : Target) : target ∈ all := by
  cases target <;> decide

namespace Deployment

open FileTree (Extends)
open AccessPolicy.Action (Within IsPreorder)
open Session (Passes)

variable {plan : FaultPlan} {s s' : Session}

/-! ## Comparing -/

/-- The text of the file where a path leads, with unified line ends. -/
def shownText? (t : FileTree) (p : Path) : Option Text :=
  if p.isAddress then
    match t.read p with
    | .error _ => none
    | .ok bytes =>
      match Utf8.decode bytes with
      | .ok text => some (.ofChars (Text.unifyNewlines text.toList))
      | .error _ => none
  else none

/-- The targets whose files differ from their new texts. -/
def changed (t : FileTree) (dir : Path) (text : Target → Text) : List Target :=
  Target.all.filter fun target => shownText? t (dir.child target.fileName) ≠ some (text target)

theorem mem_changed_iff {t : FileTree} {dir : Path} {text : Target → Text} {target : Target} :
    target ∈ changed t dir text ↔
      shownText? t (dir.child target.fileName) ≠ some (text target) := by
  rw [changed, List.mem_filter, decide_eq_true_eq]
  exact and_iff_right target.mem_all

theorem shownText?_of_notMem_changed {t : FileTree} {dir : Path} {text : Target → Text}
    {target : Target} (h : target ∉ changed t dir text) :
    shownText? t (dir.child target.fileName) = some (text target) :=
  not_not.1 (mt mem_changed_iff.2 h)

/-- No file is there, or one that is read as a text. -/
def Shows (t : FileTree) (p : Path) : Prop :=
  t.hasNode p = .ok false ∨ ∃ x, shownText? t p = some x

theorem shownText?_eq_some_iff {p : Path} {x : Text} : shownText? t p = some x ↔
    p.isAddress = true ∧ ∃ bytes s, t.read p = .ok bytes ∧ Utf8.decode bytes = .ok s ∧
      Text.ofChars (Text.unifyNewlines s.toList) = x := by
  unfold shownText?
  split_ifs with hp
  · cases hread : t.read p with
    | error e => simp
    | ok bytes => cases hs : Utf8.decode bytes <;> simp [hp, hs]
  · simp [hp]

theorem isPreorder_reads : IsPreorder (Passes [.read] Eq) :=
  Action.isPreorder_passes _ ⟨fun _ => rfl, Eq.trans⟩

theorem within_currentText (plan : FaultPlan) (p : Path) :
    Within (Passes [.read] Eq) (currentText plan p) := by
  refine isPreorder_reads.within_bind (isPreorder_reads.within_query _ _) fun there => ?_
  split
  · refine isPreorder_reads.within_bind
      (Action.passes_call ⟨fun _ => rfl, Eq.trans⟩ plan (by simp)) fun _ => ?_
    refine isPreorder_reads.within_bind (isPreorder_reads.within_query _ _) fun bytes => ?_
    split
    · exact isPreorder_reads.within_pure _
    · exact isPreorder_reads.within_fail _
  · exact isPreorder_reads.within_pure _

theorem isAddress_of_hasNode {t : FileTree} {p : Path} (h : t.hasNode p = .ok true) :
    p.isAddress = true := by
  unfold FileTree.hasNode at h
  by_cases hp : p.isAddress = true
  · exact hp
  · simp [hp] at h

theorem shownText?_of_not_hasNode {t : FileTree} {p : Path} (h : t.hasNode p = .ok false) :
    shownText? t p = none := by
  unfold FileTree.hasNode at h
  unfold shownText?
  split_ifs with hp
  · simp only [hp, Bool.not_true, Bool.false_eq_true, if_false] at h
    cases hn : t.nodeAt p with
    | ok n => simp [hn] at h
    | error e => simp [FileTree.read, hn, bind, Except.bind]
  · rfl

/-- What is read of a file depends on the tree alone. -/
theorem currentText_ok {p : Path} {current : Option Text}
    (h : currentText plan p s = (.ok current, s')) : current = shownText? s.tree p := by
  unfold currentText at h
  obtain ⟨there, s₁, hq, h⟩ := Action.bind_ok h
  obtain ⟨rfl, ⟨a, ha, hn⟩ | ⟨e, he, -⟩⟩ := Action.query_cases hq
  · obtain rfl := Except.ok.inj ha
    cases there with
    | false =>
      obtain ⟨hc, -⟩ := Action.pure_cases h
      rw [Except.ok.inj hc, shownText?_of_not_hasNode hn]
    | true =>
      obtain ⟨u, s₂, hcall, h⟩ := Action.bind_ok h
      obtain ⟨rfl, -⟩ := Action.call_cases hcall
      obtain ⟨bytes, s₃, hread, h⟩ := Action.bind_ok h
      obtain ⟨rfl, ⟨bytes', hb, hr⟩ | ⟨e, he, -⟩⟩ := Action.query_cases hread
      · obtain rfl := Except.ok.inj hb
        cases ht : Utf8.decode bytes with
        | ok text =>
          rw [ht] at h
          obtain ⟨hc, -⟩ := Action.pure_cases h
          simp [Except.ok.inj hc, shownText?, isAddress_of_hasNode hn, hr, ht]
        | error d =>
          rw [ht] at h
          exact absurd (Action.fail_cases h).1 (by simp)
      · exact absurd he (by simp)
  · exact absurd he (by simp)

theorem shows_of_currentText {p : Path} {current : Option Text}
    (h : currentText plan p s = (.ok current, s')) : Shows s.tree p := by
  cases hx : current with
  | some x => exact .inr ⟨x, (currentText_ok h).symm.trans hx⟩
  | none =>
    unfold currentText at h
    obtain ⟨there, s₁, hq, h⟩ := Action.bind_ok h
    obtain ⟨rfl, ⟨a, ha, hn⟩ | ⟨e, he, -⟩⟩ := Action.query_cases hq
    swap
    · exact absurd he (by simp)
    obtain rfl := Except.ok.inj ha
    cases there with
    | false => exact .inl hn
    | true =>
      obtain ⟨u, s₂, -, h⟩ := Action.bind_ok h
      obtain ⟨bytes, s₃, -, h⟩ := Action.bind_ok h
      cases ht : Utf8.decode bytes with
      | ok x =>
        rw [ht, hx] at h
        exact absurd (Action.pure_cases h).1 (by simp)
      | error d =>
        rw [ht] at h
        exact absurd (Action.fail_cases h).1 (by simp)

theorem within_reportAs {R : Session → Session → Prop} (hR : IsPreorder R) {α : Type}
    (words : Text) {x : Action α} (hx : Within R x) : Within R (reportAs words x) := by
  refine hR.within_onFailure hx fun e => ?_
  split
  · exact hR.within_fail _
  · exact hR.within_fail _

theorem reportAs_ok {α : Type} {words : Text} {x : Action α} {a : α}
    (h : reportAs words x s = (.ok a, s')) : x s = (.ok a, s') := by
  rcases Action.onFailure_cases h with ⟨a', ha, he⟩ | ⟨e, s₁, -, he⟩
  · rw [ha, he]
  · split at he
    · exact absurd (Action.fail_cases he).1 (by simp)
    · exact absurd (Action.fail_cases he).1 (by simp)

theorem reportAs_error {α : Type} {words : Text} {x : Action α} {e : Failure}
    (h : reportAs words x s = (.error e, s')) : ∃ e', x s = (.error e', s') := by
  rcases Action.onFailure_cases h with ⟨a, -, he⟩ | ⟨e', s₁, he', hh⟩
  · exact absurd he (by simp)
  · split at hh
    · rw [(Action.fail_cases hh).2]
      exact ⟨_, he'⟩
    · rw [(Action.fail_cases hh).2]
      exact ⟨_, he'⟩

theorem within_differs (plan : FaultPlan) (p : Path) (text : Text) :
    Within (Passes [.read] Eq) (differs plan p text) := by
  refine isPreorder_reads.within_bind
    (within_reportAs isPreorder_reads _ (within_currentText plan p)) fun current => ?_
  split
  · exact isPreorder_reads.within_bind (Action.passes_note ⟨fun _ => rfl, Eq.trans⟩ _ _)
      fun _ => isPreorder_reads.within_pure _
  · exact isPreorder_reads.within_pure _

theorem differs_ok {p : Path} {text : Text} {differ : Bool}
    (h : differs plan p text s = (.ok differ, s')) :
    differ = decide (shownText? s.tree p ≠ some text) := by
  unfold differs at h
  obtain ⟨current, s₁, hc, h⟩ := Action.bind_ok h
  rw [← currentText_ok (reportAs_ok hc)]
  split at h
  · rename_i heq
    obtain ⟨u, s₂, -, h⟩ := Action.bind_ok h
    simp [Except.ok.inj (Action.pure_cases h).1, heq]
  · rename_i hne
    simp [Except.ok.inj (Action.pure_cases h).1, hne]

/-- Comparing only reads. -/
theorem within_findChanged (plan : FaultPlan) (dir : Path) (text : Target → Text) :
    ∀ targets, Within (Passes [.read] Eq) (findChanged plan dir text targets)
  | [] => isPreorder_reads.within_pure _
  | _ :: targets =>
    isPreorder_reads.within_bind (within_differs plan _ _) fun _ =>
      isPreorder_reads.within_bind (within_findChanged plan dir text targets) fun _ =>
        isPreorder_reads.within_pure _

/-- What comparing finds depends on the tree alone. -/
theorem findChanged_ok {dir : Path} {text : Target → Text} :
    ∀ {targets found : List Target} {s s' : Session},
      findChanged plan dir text targets s = (.ok found, s') →
      found = targets.filter fun target =>
        shownText? s.tree (dir.child target.fileName) ≠ some (text target)
  | [], found, s, s', h => Except.ok.inj (Action.pure_cases h).1
  | _ :: _, found, s, s', h => by
    unfold findChanged at h
    obtain ⟨differ, s₁, hd, h⟩ := Action.bind_ok h
    obtain ⟨rest, s₂, hr, h⟩ := Action.bind_ok h
    have htree := (within_differs plan _ _ _ _ _ hd).tree
    rw [Except.ok.inj (Action.pure_cases h).1, findChanged_ok hr, differs_ok hd, ← htree,
      List.filter_cons]

theorem shows_of_findChanged {dir : Path} {text : Target → Text} :
    ∀ {targets found : List Target} {s s' : Session},
      findChanged plan dir text targets s = (.ok found, s') →
        ∀ target ∈ targets, Shows s.tree (dir.child target.fileName)
  | [], _, _, _, _ => by simp
  | target :: targets, _, s, _, h => by
    obtain ⟨differ, s₁, hd, h⟩ := Action.bind_ok h
    obtain ⟨rest, s₂, hr, -⟩ := Action.bind_ok h
    obtain ⟨current, s₃, hc, -⟩ := Action.bind_ok hd
    have htree := (within_differs plan _ _ _ _ _ hd).tree
    refine List.forall_mem_cons.2 ⟨shows_of_currentText (reportAs_ok hc), ?_⟩
    rw [htree]
    exact shows_of_findChanged hr

/-! ## Making the directory -/

/-- A directory stands at the place that the path leads to. -/
def Stands (t : FileTree) (p : Path) : Prop :=
  ∃ d, t.walk [] p.names = .ok d ∧ t.lookup d = some .directory

theorem stands_of_makeDirectory {t t' : FileTree} {p : Path} (h : t.makeDirectory p = .ok t') :
    Stands t' p := by
  obtain ⟨place, hp, hn, rfl⟩ := FileTree.exists_makeDirectory h
  have hdir : t.lookup place ≠ some .directory := by rw [hn]; simp
  have hkeep := FileTree.keepsDirectories_set .directory hdir
  refine ⟨place, FileTree.walk_of_resolve (FileTree.resolve_mono hkeep hp), ?_⟩
  rw [FileTree.lookup_set _ _ _ (FileTree.ne_nil_of_lookup hdir), if_pos rfl]

theorem stands_of_isDirectory {t : FileTree} {p : Path} (h : t.isDirectory p = true) :
    Stands t p := by
  unfold FileTree.isDirectory FileTree.nodeAt at h
  cases hp : t.resolve p with
  | error e => simp [hp, bind, Except.bind] at h
  | ok place =>
    refine ⟨place, FileTree.walk_of_resolve hp, ?_⟩
    cases hl : t.lookup place with
    | none => simp [hp, hl, bind, Except.bind] at h
    | some n =>
      cases n with
      | directory => rfl
      | file bytes mode => simp [hp, hl, bind, Except.bind] at h

theorem isPreorder_extends (p : Path) : IsPreorder (Extends p) :=
  ⟨Extends.refl p, Extends.trans⟩

theorem within_makeOne (plan : FaultPlan) {p a : Path} {n : Nat} (ha : a.names = p.names.take n) :
    Within (Passes [.makeDirectory] (Extends p)) (makeOne plan a) := by
  have hT := isPreorder_extends p
  have hR := Action.isPreorder_passes [.makeDirectory] hT
  refine hR.within_onFailure ?_ fun e => ?_
  · exact hR.within_bind (Action.passes_call hT plan (by simp)) fun _ =>
      Action.passes_change hT _ fun t t' h => .of_makeDirectory ha h
  · refine hR.within_bind hR.within_get fun s => ?_
    split
    · split
      · exact hR.within_pure _
      · exact hR.within_fail _
    · exact hR.within_fail _

theorem makeOne_ok {p : Path} (h : makeOne plan p s = (.ok (), s')) : Stands s'.tree p := by
  rcases Action.onFailure_cases h with ⟨u, h, -⟩ | ⟨e, s₁, -, h⟩
  · obtain ⟨u, s₁, -, h⟩ := Action.bind_ok h
    rcases Action.change_cases h with ⟨t, -, ht, rfl⟩ | ⟨-, e, he, -⟩
    · exact stands_of_makeDirectory ht
    · exact absurd he (by simp)
  · rw [Action.get_bind] at h
    cases e with
    | system message =>
      simp only at h
      split_ifs at h with hdir
      · rw [(Action.pure_cases h).2]
        exact stands_of_isDirectory hdir
      · exact absurd (Action.fail_cases h).1 (by simp)
    | lookup message => exact absurd (Action.fail_cases h).1 (by simp)
    | reported message => exact absurd (Action.fail_cases h).1 (by simp)
    | fault f => exact absurd (Action.fail_cases h).1 (by simp)

theorem within_makeAll (plan : FaultPlan) (p : Path) (root : Text) :
    ∀ reversed : List Text, reversed.reverse <+: p.names →
      Within (Passes [.makeDirectory] (Extends p)) (makeAll plan root reversed)
  | [], _ => within_makeOne plan (n := 0) rfl
  | name :: above, h => by
    have hT := isPreorder_extends p
    have hR := Action.isPreorder_passes [.makeDirectory] hT
    have hone : Within (Passes [.makeDirectory] (Extends p))
        (makeOne plan ⟨root, (name :: above).reverse⟩) :=
      within_makeOne plan (List.prefix_iff_eq_take.1 h)
    have habove : above.reverse <+: p.names := by
      rw [List.reverse_cons] at h
      exact (List.prefix_append _ _).trans h
    refine hR.within_bind hR.within_get fun s => ?_
    split
    · exact hR.within_bind (Action.passes_call hT plan (by simp)) fun _ =>
        hR.within_bind (within_makeAll plan p root above habove) fun _ => hone
    · exact hone

theorem makeAll_ok {root : Text} : ∀ {reversed : List Text} {s s' : Session},
    makeAll plan root reversed s = (.ok (), s') → Stands s'.tree ⟨root, reversed.reverse⟩
  | [], _, _, h => makeOne_ok h
  | name :: above, s, s', h => by
    unfold makeAll at h
    rw [Action.get_bind] at h
    split at h
    · obtain ⟨_, _, -, h⟩ := Action.bind_ok h
      obtain ⟨_, _, -, h⟩ := Action.bind_ok h
      exact makeOne_ok h
    · exact makeOne_ok h

/-- Making the directory adds directories on the way to it and nothing else. -/
theorem within_makeDirectories (plan : FaultPlan) (p : Path) :
    Within (Passes [.makeDirectory] (Extends p)) (makeDirectories plan p) := by
  have hT := isPreorder_extends p
  have hR := Action.isPreorder_passes [.makeDirectory] hT
  unfold makeDirectories
  split_ifs
  · exact hR.within_fail _
  · exact hR.within_fail _
  · exact within_makeAll plan p p.root _ (by simp)

theorem mem_calls_makeDirectories {p : Path} {r : Except Failure Unit}
    (hreads : ∀ c ∈ s.calls, c = .read) (h : makeDirectories plan p s = (r, s')) :
    ∀ c ∈ s'.calls, c ∈ [Call.read, .makeDirectory] := by
  intro c hc
  rcases (within_makeDirectories plan p _ _ _ h).asks.mem hc with hbefore | hnew
  · simp [hreads c hbefore]
  · exact List.mem_cons_of_mem _ hnew

theorem rename_notMem_of_makeDirectories {p : Path} {r : Except Failure Unit}
    (hreads : ∀ c ∈ s.calls, c = .read) (h : makeDirectories plan p s = (r, s')) :
    .rename ∉ s'.calls := fun hmem =>
  absurd (mem_calls_makeDirectories hreads h _ hmem) (by decide)

/-- Where making the directory succeeds, it is there. -/
theorem makeDirectories_ok {p : Path} (h : makeDirectories plan p s = (.ok (), s')) :
    Stands s'.tree p := by
  unfold makeDirectories at h
  split_ifs at h
  · exact absurd (Action.fail_cases h).1 (by simp)
  · exact absurd (Action.fail_cases h).1 (by simp)
  · simpa using makeAll_ok h

/-- Only a directory that can be asked for is made. -/
theorem isAddress_of_makeDirectories {p : Path} (h : makeDirectories plan p s = (.ok (), s')) :
    p.isAddress = true := by
  unfold makeDirectories at h
  split_ifs at h with hname hnull
  · exact absurd (Action.fail_cases h).1 (by simp)
  · exact absurd (Action.fail_cases h).1 (by simp)
  · simpa [Path.isAddress] using And.intro hname hnull

/-! ## The whole -/

/-- A refusal by the file system as an outcome without success. -/
def settled : Except Failure Outcome → Except Failure Outcome
  | .error (.system message) => .ok { success := false, message := message }
  | .error (.reported message) => .ok { success := false, message := message }
  | r => r

theorem settle_cases {x : Action Outcome} {r : Except Failure Outcome}
    (h : settle false x s = (r, s')) : ∃ r₁, x s = (r₁, s') ∧ r = settled r₁ := by
  rcases Action.onFailure_cases h with ⟨o, ho, rfl⟩ | ⟨e, s₁, he, hh⟩
  · exact ⟨_, ho, rfl⟩
  · cases e with
    | system message =>
      obtain ⟨rfl, rfl⟩ := Action.pure_cases hh
      exact ⟨_, he, rfl⟩
    | reported message =>
      obtain ⟨rfl, rfl⟩ := Action.pure_cases hh
      exact ⟨_, he, rfl⟩
    | lookup message =>
      obtain ⟨rfl, rfl⟩ := Action.fail_cases hh
      exact ⟨_, he, rfl⟩
    | fault f =>
      obtain ⟨rfl, rfl⟩ := Action.fail_cases hh
      exact ⟨_, he, rfl⟩

theorem exists_of_settled {r : Except Failure Outcome} {o : Outcome} (h : settled r = .ok o)
    (ho : o.success = true) : ∃ o', r = .ok o' := by
  cases r with
  | ok o' => exact ⟨o', rfl⟩
  | error e =>
    cases e with
    | system message =>
      rw [← Except.ok.inj h] at ho
      exact absurd ho (by simp)
    | reported message =>
      rw [← Except.ok.inj h] at ho
      exact absurd ho (by simp)
    | lookup message => exact absurd h (by simp [settled])
    | fault f => exact absurd h (by simp [settled])

variable {host : Host} {settings : Settings} {b : Blocks} {dryRun : Bool} {dir : Path}
  {text : Target → Text} {t : FileTree} {r : Except Failure Outcome}

/-- A run that wrote nothing : only the files were read. One that reports success although it
was to write found nothing to write. -/
structure OnlyReads (t : FileTree) (dryRun : Bool) (r : Except Failure Outcome)
    (pending : List Target) (s' : Session) : Prop where
  tree : s'.tree = t
  calls : ∀ c ∈ s'.calls, c = .read
  success : ∀ o, r = .ok o → o.success = true → dryRun = false → pending = []

/-- A run that came to write : it ended as `apply` did. -/
structure Applies (plan : FaultPlan) (host : Host) (settings : Settings) (dir : Path)
    (b : Blocks) (text : Target → Text) (t : FileTree) (r : Except Failure Outcome)
    (s' : Session) (s₁ : Session) (r₁ : Except Failure Outcome) (s₂ : Session) : Prop where
  pending : changed t dir text ≠ []
  start : s₁.tree = t
  staged : s₁.staged = []
  reads : ∀ c ∈ s₁.calls, c = .read
  applied : apply plan host settings dir b text (changed t dir text) s₁ = (r₁, s₂)
  tree : s'.tree = s₂.tree
  calls : s'.calls = s₂.calls
  result : r = settled r₁

/-- The files that a run finds to write, or the outcome that it fails with. -/
def found (plan : FaultPlan) (dir : Path) (text : Target → Text) (dryRun : Bool) :
    Action (Except Outcome (List Target)) :=
  Action.onFailure (do return Except.ok (← findChanged plan dir text Target.all)) fun e =>
    match e with
    | .reported message =>
      Action.pure (.error { success := false, message := message, dryRun := dryRun })
    | e => Action.fail e

theorem within_found (plan : FaultPlan) (dir : Path) (text : Target → Text) (dryRun : Bool) :
    Within (Passes [.read] Eq) (found plan dir text dryRun) := by
  refine isPreorder_reads.within_onFailure ?_ fun e => ?_
  · exact isPreorder_reads.within_bind (within_findChanged plan dir text _)
      fun _ => isPreorder_reads.within_pure _
  · split
    · exact isPreorder_reads.within_pure _
    · exact isPreorder_reads.within_fail _

theorem found_ok {x : Except Outcome (List Target)}
    (h : found plan dir text dryRun s = (.ok x, s')) :
    x = .ok (changed s.tree dir text) ∨ ∃ o, x = .error o ∧ o.success = false := by
  rcases Action.onFailure_cases h with ⟨y, hy, he⟩ | ⟨e, s₁, -, hh⟩
  · obtain ⟨targets, s₁, hf, hp⟩ := Action.bind_ok hy
    left
    rw [Except.ok.inj he, Except.ok.inj (Action.pure_cases hp).1, findChanged_ok hf, changed]
  · split at hh
    · obtain ⟨hx, -⟩ := Action.pure_cases hh
      exact .inr ⟨_, Except.ok.inj hx, rfl⟩
    · exact absurd (Action.fail_cases hh).1 (by simp)

theorem found_of_findChanged {targets : List Target}
    (h : findChanged plan dir text Target.all s = (.ok targets, s')) :
    found plan dir text dryRun s = (.ok (.ok targets), s') := by
  rw [found, Action.onFailure, Action.bind_of_ok h]
  rfl

theorem warned_cases {warned : Bool} {message : Text} {o : Outcome}
    (h : (if warned then (Action.note .warning message >>= fun _ => pure o) else pure o :
      Action Outcome) s = (r, s')) : r = .ok o ∧ s'.tree = s.tree ∧ s'.calls = s.calls := by
  split_ifs at h
  · rw [Action.note, Action.modify_bind] at h
    obtain ⟨rfl, rfl⟩ := Action.pure_cases h
    exact ⟨rfl, rfl, rfl⟩
  · obtain ⟨rfl, rfl⟩ := Action.pure_cases h
    exact ⟨rfl, rfl, rfl⟩

/-- A run ends as comparing does, or it has nothing to write, or it ends as writing does. -/
theorem runIn_ends (h : runIn plan host settings dir b text dryRun s = (r, s')) :
    ∃ x s₁, found plan dir text dryRun s = (x, s₁) ∧
      ((∃ e, x = .error e ∧ r = .error e ∧ s' = s₁) ∨
        (∃ o, x = .ok (.error o) ∧ r = .ok o ∧ s' = s₁) ∨
        ∃ targets, x = .ok (.ok targets) ∧
          ((dryRun = true ∨ targets = []) ∧ s' = s₁ ∧
              (∃ o, r = .ok o ∧ o.success = true ∧
                o.changed = targets.map fun target => dir.child target.fileName) ∨
            dryRun = false ∧ targets ≠ [] ∧ ∃ r₁ s₂,
              apply plan host settings dir b text targets s₁ = (r₁, s₂) ∧
                s'.tree = s₂.tree ∧ s'.calls = s₂.calls ∧ r = settled r₁)) := by
  change (found plan dir text dryRun >>= _) _ = _ at h
  rcases Action.bind_cases h with ⟨x, s₁, hx, hrest⟩ | ⟨e, hx, rfl⟩
  swap
  · exact ⟨_, _, hx, .inl ⟨e, rfl, rfl, rfl⟩⟩
  refine ⟨_, _, hx, .inr ?_⟩
  cases x with
  | error o =>
    obtain ⟨rfl, rfl⟩ := Action.pure_cases hrest
    exact .inl ⟨o, rfl, rfl, rfl⟩
  | ok targets =>
    refine .inr ⟨targets, rfl, ?_⟩
    simp only at hrest
    split_ifs at hrest with hdry hnone
    · obtain ⟨rfl, rfl⟩ := Action.pure_cases hrest
      exact .inl ⟨.inl hdry, rfl, _, rfl, rfl, rfl⟩
    · obtain ⟨rfl, rfl⟩ := Action.pure_cases hrest
      obtain rfl := List.isEmpty_iff.1 hnone
      exact .inl ⟨.inr rfl, rfl, _, rfl, rfl, rfl⟩
    · refine .inr ⟨by simpa using hdry, by simpa using hnone, ?_⟩
      rcases Action.bind_cases hrest with ⟨o, s₂, hs, hnote⟩ | ⟨e, hs, rfl⟩
      · obtain ⟨r₁, ha, hr⟩ := settle_cases hs
        obtain ⟨rfl, ht, hc⟩ := warned_cases hnote
        exact ⟨r₁, s₂, ha, ht, hc, hr⟩
      · obtain ⟨r₁, ha, hr⟩ := settle_cases hs
        exact ⟨r₁, s', ha, rfl, rfl, hr⟩

theorem reads_found {x : Except Failure (Except Outcome (List Target))}
    (h : found plan dir text dryRun { tree := t } = (x, s')) :
    s'.tree = t ∧ s'.staged = [] ∧ ∀ c ∈ s'.calls, c = .read := by
  have hp := within_found plan dir text dryRun _ _ _ h
  refine ⟨hp.tree.symm, hp.staged, fun c hc => ?_⟩
  simpa using hp.asks.mem hc

theorem runIn_cases (h : runIn plan host settings dir b text dryRun { tree := t } = (r, s')) :
    OnlyReads t dryRun r (changed t dir text) s' ∨
      dryRun = false ∧ ∃ s₁ r₁ s₂, Applies plan host settings dir b text t r s' s₁ r₁ s₂ := by
  obtain ⟨x, s₁, hx, hends⟩ := runIn_ends h
  obtain ⟨htree, hstaged, hcalls⟩ := reads_found hx
  rcases hends with ⟨e, rfl, rfl, rfl⟩ | ⟨o, rfl, rfl, rfl⟩ | ⟨targets, rfl, hends⟩
  · exact .inl ⟨htree, hcalls, fun _ h => absurd h (by simp)⟩
  · refine .inl ⟨htree, hcalls, fun o' ho' hs _ => ?_⟩
    rcases found_ok hx with hok | ⟨o'', ho, hfails⟩
    · exact absurd hok (by simp)
    · rw [← Except.ok.inj ho', Except.error.inj ho, hfails] at hs
      exact absurd hs (by simp)
  · have hfound : targets = changed t dir text := by
      rcases found_ok hx with hok | ⟨o, ho, -⟩
      · exact Except.ok.inj hok
      · exact absurd ho (by simp)
    subst hfound
    rcases hends with ⟨hnone, rfl, -⟩ | ⟨hdry, hpending, r₁, s₂, happ, ht, hc, hr⟩
    · refine .inl ⟨htree, hcalls, fun _ _ _ hdry => hnone.resolve_left ?_⟩
      rw [hdry]
      simp
    · exact .inr ⟨hdry, s₁, r₁, s₂, hpending, htree, hstaged, hcalls, happ, ht, hc, hr⟩

/-- A run whose texts cannot be made does nothing. -/
theorem run_cases (hdir : settings.confDir = .path dir)
    (h : run plan host settings b dryRun { tree := t } = (r, s')) :
    (s' = { tree := t } ∧ ∃ f, Contents.texts b settings.serverName host.name = .error f ∧
      r = .error (.fault f)) ∨
      ∃ text, Contents.texts b settings.serverName host.name = .ok text ∧
        runIn plan host settings dir b text dryRun { tree := t } = (r, s') := by
  unfold run at h
  rcases Action.bind_cases h with ⟨text, s₁, htext, hrun⟩ | ⟨e, htext, rfl⟩
  · obtain ⟨rfl, ⟨text', hok, htext'⟩ | ⟨f, -, hf⟩⟩ := Action.ofFault_cases htext
    · obtain rfl := Except.ok.inj htext'
      rw [hdir] at hrun
      exact .inr ⟨text, hok, hrun⟩
    · exact absurd hf (by simp)
  · obtain ⟨rfl, ⟨text', -, htext'⟩ | ⟨f, hf, he⟩⟩ := Action.ofFault_cases htext
    · exact absurd htext' (by simp)
    · exact .inl ⟨rfl, f, hf, congrArg _ (Except.error.inj he)⟩

/-- A run knows its directory and its texts, or it ends in a fault before it does anything. -/
theorem run_starts (host : Host) (settings : Settings) (b : Blocks) :
    (∃ dir text, settings.confDir = .path dir ∧
        Contents.texts b settings.serverName host.name = .ok text ∧
        ∀ plan host' dryRun s, host'.name = host.name →
          run plan host' settings b dryRun s = runIn plan host' settings dir b text dryRun s) ∨
      ∃ f, ∀ plan host' dryRun s, host'.name = host.name →
        run plan host' settings b dryRun s = (.error (.fault f), s) := by
  cases htext : Contents.texts b settings.serverName host.name with
  | error f =>
    refine .inr ⟨f, fun plan host' dryRun s hname => ?_⟩
    rw [run, hname, htext]
    rfl
  | ok text =>
    cases hdir : settings.confDir with
    | path dir =>
      refine .inl ⟨dir, text, rfl, rfl, fun plan host' dryRun s hname => ?_⟩
      rw [run, hname, htext, hdir]
      rfl
    | other d =>
      refine .inr ⟨.noPath, fun plan host' dryRun s hname => ?_⟩
      rw [run, hname, htext, hdir]
      rfl

end Deployment

end AccessPolicy
