import AccessPolicy.Proofs.Deployment.FaultedWrite
import AccessPolicy.Proofs.Deployment.Reported
import AccessPolicy.Proofs.Files.Calls

/-!
# Which file a failure names

A run that is refused while it stages its files or moves them reports which file it was
(`Deployment.Names`). The calls that work on a target come once for each target
(`Deployment.targetCalls`), so the number of the call that was refused is the number of the target
it was for (`Deployment.EndsAt`).

`Deployment.named_iff` : the report names that target if and only if the call was not that for a
temporary file. Those are made outside the handler that knows the target, and the handler around
it names the first file that is staged (`Deployment.misnamed_target`).
-/

namespace AccessPolicy.Deployment

open AccessPolicy.Action (Follows Stops Unworded Within)
open Session (Asks)

variable {plan : FaultPlan} {host : Host} {settings : Settings} {dir : Path} {b : Blocks}
  {text : Target → Text} {t : FileTree} {s s' : Session} {c : Call} {n : Nat}

/-! ## Names in messages -/

/-- How a message begins that says these words of a path. -/
def opening (words : Text) (p : Path) : Text :=
  words ++ p.text ++ ":"

/-- The message says of this path that it could not be written or given away. -/
def Names (message : Text) (p : Path) : Prop :=
  opening "Failed to write " p <+: message ∨ opening "Failed to set ownership on " p <+: message

theorem exists_text_child (p : Path) :
    ∃ head : Text, ∀ name, (p.child name).text = head ++ name := by
  by_cases hnames : p.names = []
  · exact ⟨p.root, fun name => by simp [Path.text, Path.child, hnames, Text.joined]⟩
  · exact ⟨p.text ++ "/", fun name => by
      simp [Path.text, Path.child, hnames, Text.joined_concat "/" name hnames]⟩

theorem opening_starts (words : Text) (p : Path) (m : Text) :
    opening words p <+: words ++ p.text ++ ": " ++ m :=
  ⟨" " ++ m, by simp [opening, Text.ofString, Text.ofChars]⟩

/-- No message that one target could not be written names the other one. -/
theorem not_names_of_ne {a a' : Target} (h : a ≠ a') (m : Text) :
    ¬ Names ("Failed to write " ++ (dir.child a.fileName).text ++ ": " ++ m)
      (dir.child a'.fileName) := by
  obtain ⟨head, hhead⟩ := exists_text_child dir
  rw [Names, opening, opening, hhead, hhead]
  rintro (⟨z, hz⟩ | ⟨z, hz⟩)
  · simp only [List.append_assoc, List.append_cancel_left_eq] at hz
    cases a with
    | auth =>
      cases a' with
      | auth => exact h rfl
      | limits => exact absurd (List.cons.inj hz).1 (by decide)
    | limits =>
      cases a' with
      | auth => exact absurd (List.cons.inj hz).1 (by decide)
      | limits => exact h rfl
  · -- the two ways of wording it differ in a letter
    have hletter := congrArg (fun t => t[10]?) hz
    exact absurd (Option.some.inj hletter) (by decide)

/-! ## Staging -/

/-- The calls that work on a target. -/
def targetCalls : List Call := [.createTemporary, .setMode, .setOwner, .rename]

/-- The calls that fill a temporary file, in their order. -/
def fillCalls (settings : Settings) : List Call :=
  .write :: .setMode ::
    if settings.owner.isGiven || settings.group.isGiven then [.setOwner] else []

theorem follows_fillTemporary (plan : FaultPlan) (host : Host) (settings : Settings) (x : Text)
    (q : Place) : Follows plan (fillCalls settings) (fillTemporary plan host settings x q) := by
  have hmodify : ∀ f : Session → Session, (∀ s, (f s).calls = s.calls) →
      Within (Asks []) (Action.modify f) := fun f hf =>
    Action.within_modify fun s => .of_eq (hf s)
  refine Action.follows_call_bind plan .write fun _ => ?_
  refine Action.follows_quiet_bind (quiet.within_ofFault _) fun bytes => ?_
  refine Action.follows_quiet_bind (hmodify _ fun _ => rfl) fun _ => ?_
  refine Action.follows_call_bind plan .setMode fun _ => ?_
  refine Action.follows_quiet_bind (quiet.within_ofFault _) fun mode => ?_
  refine Action.follows_quiet_bind (hmodify _ fun _ => rfl) fun _ => ?_
  split
  · refine Action.follows_call_bind plan .setOwner fun _ => Action.follows_of_asks_nil ?_
    split
    · exact hmodify _ fun _ => rfl
    · exact quiet.within_fail _
  · exact Action.follows_of_asks_nil (quiet.within_pure _)

/-- Filling goes through the calls in their order, and the first is made in any case. -/
theorem fillOrDiscard_calls {path : Path} {x : Text} {q : Place} {r : Except Failure Unit}
    (h : fillOrDiscard plan host settings path x q s = (r, s')) :
    ∃ made, s'.calls = s.calls ++ made ∧ made ≠ [] ∧ made <+: fillCalls settings ∧
      (r = .ok () → made = fillCalls settings) := by
  obtain ⟨r₁, s₁, hfill, hcalls, hr⟩ := fillOrDiscard_after h
  obtain ⟨made, hmade, hpre, hall⟩ :=
    (follows_fillTemporary plan host settings x q).calls _ _ _ hfill
  obtain ⟨cs, hcs, -⟩ := calls_fillTemporary hfill
  refine ⟨made, hcalls.trans hmade, ?_, hpre, fun hok => hall ⟨(), ?_⟩⟩
  · rintro rfl
    rw [hcs, List.append_cancel_left_eq] at hmade
    cases hmade
  · rcases hr with ⟨m, -, rfl⟩ | ⟨rfl, -⟩
    · cases hok
    · exact hok

section Unworded

variable (hplan : ∀ c n m, plan c n ≠ some (.reported m))
  (hhost : ∀ m, host.changeOwner settings.owner settings.group ≠ .error (.reported m))

include hplan

theorem unworded_createTemporary (dir : Path) (a : Target) :
    Unworded (createTemporary plan dir a) := by
  refine Action.unworded_bind (Action.unworded_call hplan _) fun _ => ?_
  refine Action.unworded_bind Action.unworded_get fun s => ?_
  refine Action.unworded_bind (Action.unworded_query _ _) fun place => ?_
  exact Action.unworded_bind (Action.unworded_modify _) fun _ => Action.unworded_pure _

theorem unworded_install (staged : Staged) : Unworded (install plan staged) :=
  Action.unworded_bind (Action.unworded_call hplan _) fun _ =>
    Action.unworded_bind (Action.unworded_change _ _) fun _ =>
      Action.unworded_bind (Action.unworded_modify _) fun _ => Action.unworded_modify _

include hhost

theorem unworded_fillTemporary (x : Text) (q : Place) :
    Unworded (fillTemporary plan host settings x q) := by
  refine Action.unworded_bind (Action.unworded_call hplan _) fun _ => ?_
  refine Action.unworded_bind (Action.unworded_ofFault _) fun bytes => ?_
  refine Action.unworded_bind (Action.unworded_modify _) fun _ => ?_
  refine Action.unworded_bind (Action.unworded_call hplan _) fun _ => ?_
  refine Action.unworded_bind (Action.unworded_ofFault _) fun mode => ?_
  refine Action.unworded_bind (Action.unworded_modify _) fun _ => ?_
  split
  · refine Action.unworded_bind (Action.unworded_call hplan _) fun _ => ?_
    cases hchange : host.changeOwner settings.owner settings.group with
    | ok u => exact Action.unworded_modify _
    | error e =>
      intro s x s' h m heq
      obtain rfl := Except.error.inj (Action.fail_cases h).1
      exact hhost m (heq ▸ hchange)
  · exact Action.unworded_pure _

/-- Where a temporary file cannot be filled, its target is named, or a value stood against
it. -/
theorem fillOrDiscard_names {path : Path} {x : Text} {q : Place} {e : Failure}
    (h : fillOrDiscard plan host settings path x q s = (.error e, s')) :
    (∃ m, e = .reported m ∧ Names m path) ∨ ∃ f, e = .fault f := by
  rcases Action.onFailure_cases h with ⟨u, -, hok⟩ | ⟨e', s₁, he, hh⟩
  · cases hok
  have hunworded := unworded_fillTemporary hplan hhost x q _ _ _ he
  cases e' with
  | system message =>
    simp only [discard] at hh
    rw [Action.modify_bind] at hh
    exact .inl ⟨_, Except.error.inj (Action.fail_cases hh).1, .inl (opening_starts _ path _)⟩
  | lookup message =>
    simp only [discard] at hh
    rw [Action.modify_bind] at hh
    exact .inl ⟨_, Except.error.inj (Action.fail_cases hh).1, .inr (opening_starts _ path _)⟩
  | reported message => exact absurd rfl (hunworded message)
  | fault f => exact .inr ⟨f, Except.error.inj (Action.fail_cases hh).1⟩

/-- Staging a file fails for want of a temporary file, or for its target, which is named. -/
theorem stage_error {a : Target} {e : Failure}
    (h : stage plan host settings dir text a s = (.error e, s')) :
    s'.staged = s.staged ∧ ∃ filled, s'.calls = s.calls ++ .createTemporary :: filled ∧
      filled <+: fillCalls settings ∧
      (filled = [] ∧ (∀ m, e ≠ .reported m) ∨ filled ≠ [] ∧
        ((∃ m, e = .reported m ∧ Names m (dir.child a.fileName)) ∨ ∃ f, e = .fault f)) := by
  rcases Action.bind_cases h with ⟨q, s₁, hq, hrest⟩ | ⟨x, hq, hx⟩
  · obtain ⟨x, hx, -⟩ | ⟨d, name, -, hok, -, -, hstaged⟩ := createTemporary_cases hq
    · cases hx
    obtain rfl := Except.ok.inj hok
    change (fillOrDiscard plan host settings _ _ _ >>= _) _ = _ at hrest
    rcases Action.bind_cases hrest with ⟨u, s₂, -, hmod⟩ | ⟨x, hfill, hx⟩
    · exact absurd (Action.modify_cases hmod).1 (by simp)
    obtain rfl := Except.error.inj hx
    have hchange := within_fillOrDiscard (by simp) plan host settings _ _ _ _ _ hfill
    obtain ⟨filled, hfilled, hne, hpre, -⟩ := fillOrDiscard_calls hfill
    refine ⟨hchange.staged.trans hstaged, filled, ?_, hpre, .inr ⟨hne, ?_⟩⟩
    · rw [hfilled, calls_createTemporary hq, List.append_assoc]
      rfl
    · exact fillOrDiscard_names hplan hhost hfill
  · obtain rfl := Except.error.inj hx
    refine ⟨?_, [], calls_createTemporary hq, List.nil_prefix, .inl ⟨rfl, ?_⟩⟩
    · rcases createTemporary_cases hq with ⟨-, -, -, hstaged⟩ | ⟨_, _, -, hok, -⟩
      · exact hstaged
      · cases hok
    · exact unworded_createTemporary hplan dir a _ _ _ hq

end Unworded

/-- Staging a file that succeeds makes all the calls and adds its target. -/
theorem stage_ok {a : Target} (h : stage plan host settings dir text a s = (.ok (), s')) :
    s'.calls = s.calls ++ .createTemporary :: fillCalls settings ∧
      s'.staged.map Staged.target = s.staged.map Staged.target ++ [dir.child a.fileName] := by
  obtain ⟨q, s₁, hq, hrest⟩ := Action.bind_ok h
  obtain ⟨x, hx, -⟩ | ⟨d, name, -, hok, -, -, hstaged⟩ := createTemporary_cases hq
  · cases hx
  obtain rfl := Except.ok.inj hok
  change (fillOrDiscard plan host settings _ _ _ >>= _) _ = _ at hrest
  obtain ⟨u, s₂, hfill, hmod⟩ := Action.bind_ok hrest
  obtain ⟨-, rfl⟩ := Action.modify_cases hmod
  have hchange := within_fillOrDiscard (by simp) plan host settings _ _ _ _ _ hfill
  obtain ⟨filled, hfilled, -, -, hall⟩ := fillOrDiscard_calls hfill
  constructor
  · rw [show s₂.calls = _ from hfilled, calls_createTemporary hq, hall rfl, List.append_assoc]
    rfl
  · rw [List.map_append, hchange.staged, hstaged]
    rfl

theorem nodup_stageCalls (settings : Settings) :
    (Call.createTemporary :: fillCalls settings).Nodup := by
  unfold fillCalls
  split <;> decide

/-- After some targets were staged, each call of staging was made once for each of them. -/
theorem forEach_stage_ok : ∀ {done : List Target} {s s' : Session},
    Action.forEach (stage plan host settings dir text) done s = (.ok (), s') →
      (∀ c ∈ Call.createTemporary :: fillCalls settings,
        s'.calls.count c = s.calls.count c + done.length) ∧
      s'.staged.map Staged.target =
        s.staged.map Staged.target ++ done.map fun a => dir.child a.fileName
  | [], s, s', h => by
    obtain ⟨-, rfl⟩ := Action.pure_cases h
    simp
  | a :: done, s, s', h => by
    obtain ⟨u, s₁, ha, hrest⟩ := Action.bind_ok h
    obtain ⟨hcalls, hstaged⟩ := stage_ok ha
    obtain ⟨hcounts, hdone⟩ := forEach_stage_ok hrest
    refine ⟨fun c hc => ?_, ?_⟩
    · rw [hcounts c hc, hcalls, List.count_append,
        List.count_eq_one_of_mem (nodup_stageCalls settings) hc, List.length_cons]
      omega
    · rw [hdone, hstaged, List.map_cons, List.append_assoc, List.singleton_append]

/-! ## Moving into place -/

/-- Once the call for a move is granted, no call is made. -/
theorem quiet_move (a : Staged) : Within (Asks []) (do
    Action.change a.target fun t => t.rename a.temporary a.target
    Action.modify fun s => { s with staged := s.staged.drop 1 }
    Action.note .info ("Wrote " ++ a.target.text) : Action Unit) :=
  quiet.within_bind (Action.asks_change _ _) fun _ =>
    quiet.within_bind (Action.within_modify fun _ => .of_eq rfl) fun _ =>
      Action.within_modify fun _ => .of_eq rfl

theorem calls_install {a : Staged} {r : Except Failure Unit} (h : install plan a s = (r, s')) :
    s'.calls = s.calls ++ [.rename] := by
  obtain ⟨cs, hcs, hk⟩ := Action.calls_of_call_bind (fun _ => quiet_move a) h
  rw [hcs, List.eq_nil_iff_forall_not_mem.2 fun c hc => absurd (hk c hc) (by simp)]

theorem staged_of_install_error {a : Staged} {e : Failure}
    (h : install plan a s = (.error e, s')) : s'.staged = s.staged := by
  rcases Action.bind_cases h with ⟨u, s₁, hcall, hrest⟩ | ⟨x, hcall, -⟩
  · obtain ⟨rfl, -⟩ := Action.call_cases hcall
    rcases Action.bind_cases hrest with ⟨u, s₂, -, hrest⟩ | ⟨x, hren, -⟩
    · rw [Action.modify_bind] at hrest
      exact absurd (Action.modify_cases hrest).1 (by simp)
    · rcases Action.change_cases hren with ⟨t, hok, -⟩ | ⟨rfl, -⟩
      · cases hok
      · rfl
  · rw [(Action.call_cases hcall).1]

/-- After some files were moved, the others are still staged. -/
theorem forEach_install_ok : ∀ {done : List Staged} {s s' : Session},
    Action.forEach (install plan) done s = (.ok (), s') →
      s'.calls.count .rename = s.calls.count .rename + done.length ∧
        s'.staged = s.staged.drop done.length
  | [], s, s', h => by
    obtain ⟨-, rfl⟩ := Action.pure_cases h
    simp
  | a :: done, s, s', h => by
    obtain ⟨u, s₁, ha, hrest⟩ := Action.bind_ok h
    obtain ⟨hcount, hstaged⟩ := forEach_install_ok hrest
    rw [hcount, hstaged, calls_install ha, staged_of_install ha, List.count_append,
      List.drop_drop, List.count_singleton_self, List.length_cons]
    exact ⟨by omega, by rw [Nat.add_comm]⟩

/-! ## Writing all -/

/-- How writing fails at a target, by the call : what it fails with, and what is staged then. -/
inductive FailsAt (settings : Settings) (dir : Path) (done : List Target) (a : Target) :
    Call → Failure → List Staged → Prop
  /-- There is no temporary file for it, and those before it are staged. -/
  | temporary {e : Failure} {staged : List Staged} : (∀ m, e ≠ .reported m) →
      staged.map Staged.target = done.map (fun a => dir.child a.fileName) →
      FailsAt settings dir done a .createTemporary e staged
  /-- Its temporary file could not be filled. -/
  | filling {c : Call} {e : Failure} {staged : List Staged} : c ∈ fillCalls settings →
      (∃ m, e = .reported m ∧ Names m (dir.child a.fileName)) ∨ (∃ f, e = .fault f) →
      FailsAt settings dir done a c e staged
  /-- It could not be moved, and is staged still, before those that come after it. -/
  | moving {e : Failure} {first : Staged} {later : List Staged} : (∀ m, e ≠ .reported m) →
      first.target = dir.child a.fileName → FailsAt settings dir done a .rename e (first :: later)

theorem ne_createTemporary_of_mem_fillCalls (h : c ∈ fillCalls settings) :
    c ≠ .createTemporary := by
  rintro rfl
  exact (List.nodup_cons.1 (nodup_stageCalls settings)).1 h

theorem fillCalls_subset : fillCalls settings ⊆ stagingCalls := by
  unfold fillCalls
  split <;> decide

/-- Where the words come from : they are there already, or they are those for the first file that
is staged. -/
theorem worded_eq_reported {m : Text} : ∀ {staged : List Staged} {e : Failure},
    worded staged e = .reported m → e = .reported m ∨ ∃ first later message,
      staged = first :: later ∧ m = "Failed to write " ++ first.target.text ++ ": " ++ message
  | [], .reported _, h => .inl h
  | _ :: _, .reported _, h => .inl h
  | first :: later, .system message, h =>
    .inr ⟨first, later, message, rfl, (Failure.reported.inj h).symm⟩

theorem worded_ne_system (m : Text) : ∀ (staged : List Staged) (e : Failure),
    worded staged e ≠ .system m
  | [], .system _ => nofun
  | _ :: _, .system _ => nofun
  | [], .lookup _ | [], .reported _ | [], .fault _ => nofun
  | _ :: _, .lookup _ | _ :: _, .reported _ | _ :: _, .fault _ => nofun

/-- A failure for want of a temporary file is worded for the first target. -/
theorem FailsAt.first {done : List Target} {a : Target} {e : Failure} {staged : List Staged}
    {m : Text} (h : FailsAt settings dir done a .createTemporary e staged)
    (hm : worded staged e = .reported m) : ∃ first rest message, done = first :: rest ∧
      m = "Failed to write " ++ (dir.child first.fileName).text ++ ": " ++ message := by
  cases h with
  | temporary hunworded hstaged =>
    obtain ⟨file, later, message, rfl, rfl⟩ :=
      (worded_eq_reported hm).resolve_left (hunworded m)
    obtain ⟨first, rest, rfl, hfirst, -⟩ := List.map_eq_cons_iff.1 hstaged.symm
    exact ⟨first, rest, message, rfl, by rw [hfirst]⟩
  | filling hc _ => exact absurd rfl (ne_createTemporary_of_mem_fillCalls hc)

/-- Any other failure that is worded names the target it is at. -/
theorem FailsAt.names_iff {done : List Target} {a : Target} {e : Failure} {staged : List Staged}
    {m : Text} (h : FailsAt settings dir done a c e staged) (ha : a ∉ done)
    (hm : worded staged e = .reported m) :
    Names m (dir.child a.fileName) ↔ c ≠ .createTemporary := by
  cases h with
  | temporary hunworded hstaged =>
    have hat : FailsAt settings dir done a .createTemporary e staged :=
      .temporary hunworded hstaged
    obtain ⟨first, rest, message, rfl, rfl⟩ := hat.first hm
    refine iff_of_false ?_ (not_not.2 rfl)
    exact not_names_of_ne (fun heq : first = a => ha (heq ▸ List.mem_cons_self)) message
  | filling hc hend =>
    refine iff_of_true ?_ (ne_createTemporary_of_mem_fillCalls hc)
    rcases hend with ⟨m', rfl, hnames⟩ | ⟨f, rfl⟩
    · cases staged <;> exact Failure.reported.inj hm ▸ hnames
    · cases staged <;> cases hm
  | moving hunworded htarget =>
    obtain ⟨first', later', message, hstaged, rfl⟩ :=
      (worded_eq_reported hm).resolve_left (hunworded m)
    obtain rfl := (List.cons.inj hstaged).1
    rw [htarget]
    exact iff_of_true (.inl (opening_starts _ _ message)) (by decide)

/-- Writing failed at one of the targets, and the index of that target is the number of the calls
of this kind before the last one. -/
def EndsAt (settings : Settings) (dir : Path) (targets : List Target) (e : Failure)
    (s' : Session) : Prop :=
  ∃ done a rest c, targets = done ++ a :: rest ∧ s'.calls.getLast? = some c ∧
    s'.calls.count c = done.length + 1 ∧ FailsAt settings dir done a c e s'.staged

section FailsAt

variable {targets : List Target} {e : Failure}
  (hplan : ∀ c n m, plan c n ≠ some (.reported m))
  (hhost : ∀ m, host.changeOwner settings.owner settings.group ≠ .error (.reported m))

include hplan

theorem forEach_install_endsAt
    (hs : s.staged.map Staged.target = targets.map fun a => dir.child a.fileName)
    (hcalls : s.calls.count .rename = 0)
    (h : Action.forEach (install plan) s.staged s = (.error e, s')) :
    EndsAt settings dir targets e s' := by
  obtain ⟨moved, first, later, s₁, hsplit, hmoved, hfirst⟩ := Action.forEach_error h
  obtain ⟨hcount, hleft⟩ := forEach_install_ok hmoved
  rw [hsplit, List.map_append, List.map_cons] at hs
  obtain ⟨done, rest', htargets, hdone, hrest'⟩ := List.map_eq_append_iff.1 hs.symm
  obtain ⟨a, rest, rfl, ha, -⟩ := List.map_eq_cons_iff.1 hrest'
  have hlength : moved.length = done.length := by
    have hlengths := congrArg List.length hdone
    simpa using hlengths.symm
  refine ⟨done, a, rest, .rename, htargets, ?_, ?_, ?_⟩
  · rw [calls_install hfirst]
    simp
  · rw [calls_install hfirst, List.count_append, hcount, hcalls, hlength,
      List.count_singleton_self, Nat.zero_add]
  · rw [staged_of_install_error hfirst, hleft, hsplit, List.drop_left]
    exact .moving (unworded_install hplan first _ _ _ hfirst) ha.symm

include hhost

theorem forEach_stage_endsAt (hs : s.staged = [])
    (hcalls : ∀ c ∈ stagingCalls, s.calls.count c = 0)
    (h : Action.forEach (stage plan host settings dir text) targets s = (.error e, s')) :
    EndsAt settings dir targets e s' := by
  obtain ⟨done, a, rest, s₁, htargets, hdone, ha⟩ := Action.forEach_error h
  obtain ⟨hcounts, hstaged⟩ := forEach_stage_ok hdone
  obtain ⟨hkept, filled, hfilled, hpre, hend⟩ := stage_error hplan hhost ha
  have hmade : (Call.createTemporary :: filled).Sublist (.createTemporary :: fillCalls settings) :=
    hpre.sublist.cons_cons _
  have hcount : ∀ c ∈ Call.createTemporary :: filled, s'.calls.count c = done.length + 1 := by
    intro c hc
    have hkind : c ∈ stagingCalls :=
      List.cons_subset.2 ⟨by decide, fillCalls_subset⟩ (hmade.subset hc)
    rw [hfilled, List.count_append, hcounts c (hmade.subset hc), hcalls c hkind, Nat.zero_add,
      List.count_eq_one_of_mem ((nodup_stageCalls settings).sublist hmade) hc]
  rcases hend with ⟨rfl, hunworded⟩ | ⟨hne, hend⟩
  · refine ⟨done, a, rest, .createTemporary, htargets, by rw [hfilled]; simp,
      hcount _ List.mem_cons_self, .temporary hunworded ?_⟩
    rw [hkept, hstaged, hs, List.map_nil, List.nil_append]
  · have hmem := List.getLast_mem hne
    refine ⟨done, a, rest, filled.getLast hne, htargets, ?_,
      hcount _ (List.mem_cons_of_mem _ hmem), .filling (hpre.subset hmem) hend⟩
    rw [hfilled, List.getLast?_append_of_ne_nil _ (by simp), List.getLast?_cons,
      List.getLast?_eq_some_getLast hne]
    rfl

/-- Writing that fails does so at one of the targets. -/
theorem stageAndInstall_error (hs : s.staged = [])
    (hcalls : ∀ c ∈ Call.rename :: stagingCalls, s.calls.count c = 0)
    (h : stageAndInstall plan host settings dir text targets s = (.error e, s')) :
    EndsAt settings dir targets e s' := by
  obtain ⟨hrename, hstaging⟩ := List.forall_mem_cons.1 hcalls
  rcases Action.bind_cases h with ⟨u, s₁, hstage, hrest⟩ | ⟨x, hstage, hx⟩
  · obtain ⟨-, hstaged⟩ := forEach_stage_ok hstage
    rw [hs, List.map_nil, List.nil_append] at hstaged
    have hasks := (Action.isPreorder_asks stagingCalls).within_forEach
      (asks_stage plan host settings dir text) targets _ _ _ hstage
    rw [Action.get_bind] at hrest
    exact forEach_install_endsAt hplan hstaged ((hasks.count_eq (by decide)).trans hrename) hrest
  · obtain rfl := Except.error.inj hx
    exact forEach_stage_endsAt hplan hhost hs hstaging hstage

/-- What writing all reports of its last call. -/
theorem writeAll_names (hs : s.staged = [])
    (hcalls : ∀ c ∈ Call.rename :: stagingCalls, s.calls.count c = 0) (hnodup : targets.Nodup)
    (h : writeAll plan host settings dir text targets s = (.error e, s'))
    (hlast : s'.calls.getLast? = some c) (hcount : s'.calls.count c = n + 1) :
    (∀ m, e ≠ .system m) ∧ ∃ target, targets[n]? = some target ∧ ∀ m, e = .reported m →
      (Names m (dir.child target.fileName) ↔ c ≠ .createTemporary) ∧
        (c = .createTemporary →
          ∃ first, targets[0]? = some first ∧ Names m (dir.child first.fileName)) := by
  obtain ⟨x, s₁, hx, rfl, hr⟩ := writeAll_body h
  rw [discardStaged_eq] at hlast hcount
  cases x with
  | ok u => cases hr
  | error e' =>
    obtain rfl := Except.error.inj hr
    obtain ⟨done, a, rest, c', rfl, hlast', hcount', hfails⟩ :=
      stageAndInstall_error hplan hhost hs hcalls hx
    obtain rfl := Option.some.inj (hlast'.symm.trans hlast)
    obtain rfl : done.length = n := Nat.succ.inj (hcount'.symm.trans hcount)
    have hnew : a ∉ done := fun hmem =>
      (List.nodup_append.1 hnodup).2.2 a hmem a List.mem_cons_self rfl
    refine ⟨fun m => worded_ne_system m _ _, a, by simp, fun m hm =>
      ⟨hfails.names_iff hnew hm, ?_⟩⟩
    rintro rfl
    obtain ⟨first, rest', message, rfl, rfl⟩ := hfails.first hm
    exact ⟨first, rfl, .inl (opening_starts _ _ message)⟩

end FailsAt

/-! ## Where a run stops -/

theorem stops_createTemporary (plan : FaultPlan) (dir : Path) (a : Target) :
    Stops plan (createTemporary plan dir a) := by
  refine Action.stops_bind (Action.stops_call plan _) fun _ => Action.stops_of_asks_nil ?_
  refine quiet.within_bind quiet.within_get fun s => ?_
  refine quiet.within_bind (quiet.within_query _ _) fun place => ?_
  exact quiet.within_bind (Action.within_modify fun _ => .of_eq rfl) fun _ => quiet.within_pure _

theorem stops_fillOrDiscard (plan : FaultPlan) (host : Host) (settings : Settings) (path : Path)
    (x : Text) (q : Place) : Stops plan (fillOrDiscard plan host settings path x q) := by
  intro s r s' h c n hle hlt hsome
  obtain ⟨r₁, s₁, hfill, hcalls, hr⟩ := fillOrDiscard_after h
  rw [hcalls] at hlt ⊢
  obtain ⟨⟨e, rfl⟩, hlast⟩ :=
    (follows_fillTemporary plan host settings x q).stops _ _ _ hfill c n hle hlt hsome
  refine ⟨?_, hlast⟩
  rcases hr with ⟨m, -, rfl⟩ | ⟨rfl, -⟩
  · exact ⟨_, rfl⟩
  · exact ⟨_, rfl⟩

theorem stops_stageAndInstall (plan : FaultPlan) (host : Host) (settings : Settings) (dir : Path)
    (text : Target → Text) (targets : List Target) :
    Stops plan (stageAndInstall plan host settings dir text targets) := by
  have hstage : ∀ a, Stops plan (stage plan host settings dir text a) := fun a =>
    Action.stops_bind (stops_createTemporary plan dir a) fun q =>
      Action.stops_bind (stops_fillOrDiscard plan host settings _ _ q) fun _ =>
        Action.stops_of_asks_nil (Action.within_modify fun _ => .of_eq rfl)
  have hinstall : ∀ a, Stops plan (install plan a) := fun a =>
    Action.stops_bind (Action.stops_call plan _) fun _ => Action.stops_of_asks_nil (quiet_move a)
  exact Action.stops_bind (Action.stops_forEach hstage targets) fun _ =>
    Action.stops_bind (Action.stops_of_asks_nil quiet.within_get) fun s =>
      Action.stops_forEach hinstall s.staged

theorem stops_writeAll (plan : FaultPlan) (host : Host) (settings : Settings) (dir : Path)
    (text : Target → Text) (targets : List Target) :
    Stops plan (writeAll plan host settings dir text targets) := by
  intro s r s' h c n hle hlt hsome
  obtain ⟨x, s₁, hx, rfl, rfl⟩ := writeAll_body h
  rw [discardStaged_eq] at hlt ⊢
  obtain ⟨⟨e, rfl⟩, hlast⟩ :=
    stops_stageAndInstall plan host settings dir text targets _ _ _ hx c n hle hlt hsome
  exact ⟨⟨_, rfl⟩, hlast⟩

/-- A refused call that works on a target was the last one, or the plan refused it. -/
theorem Raised.last_or_planned {calls : List Call}
    (h : Raised plan host settings dir b t calls c n) (hkind : c ∈ targetCalls) :
    (calls.getLast? = some c ∧ calls.count c = n + 1) ∨
      ((plan c n).isSome ∧ n < calls.count c) := by
  cases h with
  | planned hsome hlt _ => exact .inr ⟨hsome, hlt⟩
  | unknown _ _ hlast hcount => exact .inl ⟨hlast, hcount⟩
  | ended _ hlast hcount => exact .inl ⟨hlast, hcount⟩
  | unreadable _ _ => exact absurd hkind (by decide)

/-- A run that came to the marker and has an outcome ends with a call for the marker. -/
theorem last_ne_of_marker {targets : List Target} {message : Text} {r₁ : Except Failure Outcome}
    {o : Outcome}
    (h : (do
      writeMarker plan host settings dir targets b
      return outcome dir b false targets message : Action Outcome) s = (r₁, s'))
    (hr : settled r₁ = .ok o) (hkind : c ∈ targetCalls) : s'.calls.getLast? ≠ some c := by
  obtain ⟨x, hmarker, rfl⟩ := Action.bind_pure_cases h
  rcases writeMarker_cases hmarker with ⟨-, f, -, rfl⟩ | ⟨server, cs, -, hcalls, hcs, -⟩
  · cases hr
  · intro hlast
    rw [hcalls] at hlast
    rcases last_markerCall hcs hlast with rfl | rfl
    · exact absurd hkind (by decide)
    · exact absurd hkind (by decide)

/-- A run with an outcome in which such a call was refused stopped there while it was writing. -/
theorem Applies.stopped {o : Outcome} {r₁ : Except Failure Outcome} {s₁ s₂ : Session}
    (h : Applies plan host settings dir b text t (.ok o) s' s₁ r₁ s₂) (hkind : c ∈ targetCalls)
    (hraised : Raised plan host settings dir b t s'.calls c n) :
    ∃ s₃ e, makeDirectories plan dir s₁ = (.ok (), s₃) ∧
      writeAll plan host settings dir text (changed t dir text) s₃ = (.error e, s₂) ∧
      r₁ = .error e ∧ s₂.calls.getLast? = some c ∧ s₂.calls.count c = n + 1 := by
  rw [h.calls] at hraised
  have hnone : ∀ {x s₃}, makeDirectories plan dir s₁ = (x, s₃) → c ∉ s₃.calls := by
    intro x s₃ hmake hmem
    rcases List.mem_pair.1 (mem_calls_makeDirectories h.reads hmake c hmem) with rfl | rfl
    · exact absurd hkind (by decide)
    · exact absurd hkind (by decide)
  rcases Action.bind_cases h.applied with ⟨_, s₃, hmake, hrest⟩ | ⟨e, hmake, -⟩
  swap
  · rcases hraised.mem with rfl | hmem
    · exact absurd hkind (by decide)
    · exact absurd hmem (hnone hmake)
  have hfirst : s₃.calls.count c ≤ n := by
    rw [List.count_eq_zero.2 (hnone hmake)]
    exact Nat.zero_le n
  have hstops := stops_writeAll plan host settings dir text (changed t dir text)
  rcases Action.bind_cases hrest with ⟨_, s₄, hwrite, hmarker⟩ | ⟨e, hwrite, rfl⟩
  · rcases hraised.last_or_planned hkind with ⟨hlast, -⟩ | ⟨hsome, hlt⟩
    · exact absurd hlast (last_ne_of_marker hmarker h.result.symm hkind)
    · obtain ⟨x, hmarked, -⟩ := Action.bind_pure_cases hmarker
      have hother : c ∉ [Call.openMarker, .write] := by
        intro hmem
        rcases List.mem_pair.1 hmem with rfl | rfl
        · exact absurd hkind (by decide)
        · exact absurd hkind (by decide)
      rw [(asks_writeMarker _ _ _ hmarked).count_eq hother] at hlt
      obtain ⟨⟨e, he⟩, -⟩ := hstops _ _ _ hwrite c n hfirst hlt hsome
      cases he
  · refine ⟨s₃, e, hmake, hwrite, rfl, ?_⟩
    rcases hraised.last_or_planned hkind with hlast | ⟨hsome, hlt⟩
    · exact hlast
    · exact (hstops _ _ _ hwrite c n hfirst hlt hsome).2

/-! ## The run -/

/-- Where a run with an outcome was refused a call that works on a target, the outcome tells of
a failure, and its message names the target that the call was for if and only if that was not
the call for a temporary file. There it names the first target. -/
theorem named_iff (hplan : ∀ c n m, plan c n ≠ some (.reported m))
    (hhost : ∀ m, host.changeOwner settings.owner settings.group ≠ .error (.reported m))
    (hdir : settings.confDir = .path dir) (hkind : c ∈ targetCalls) {o : Outcome}
    (h : run plan host settings b false { tree := t } = (.ok o, s'))
    (hraised : Raised plan host settings dir b t s'.calls c n) :
    o.success = false ∧ ∃ text target,
      Contents.texts b settings.serverName host.name = .ok text ∧
        (changed t dir text)[n]? = some target ∧
        (Names o.message (dir.child target.fileName) ↔ c ≠ .createTemporary) ∧
        (c = .createTemporary → ∃ first, (changed t dir text)[0]? = some first ∧
          Names o.message (dir.child first.fileName)) := by
  rcases run_cases hdir h with ⟨-, f, -, hf⟩ | ⟨text, htext, hrun⟩
  · cases hf
  rcases runIn_cases hrun with honly | ⟨-, s₁, r₁, s₂, happ⟩
  · rcases hraised.mem with rfl | hmem
    · exact absurd hkind (by decide)
    · obtain rfl := honly.calls c hmem
      exact absurd hkind (by decide)
  obtain ⟨s₃, e, hmake, hwrite, rfl, hlast, hcount⟩ := happ.stopped hkind hraised
  have hstaged := (within_makeDirectories plan dir _ _ _ hmake).staged.trans happ.staged
  have hcalls : ∀ c ∈ Call.rename :: stagingCalls, s₃.calls.count c = 0 := fun c hc =>
    List.count_eq_zero.2 fun hmem => by
      rcases List.mem_pair.1 (mem_calls_makeDirectories happ.reads hmake c hmem) with rfl | rfl
      · exact absurd hc (by decide)
      · exact absurd hc (by decide)
  obtain ⟨hsystem, target, htarget, hnames⟩ := writeAll_names hplan hhost hstaged hcalls
    (nodup_changed t dir text) hwrite hlast hcount
  cases e with
  | reported m =>
    obtain rfl := Except.ok.inj happ.result
    exact ⟨rfl, text, target, htext, htarget, hnames m rfl⟩
  | system m => exact absurd rfl (hsystem m)
  | lookup m => cases happ.result
  | fault f => cases happ.result

/-- The second move is refused, and the second file is named. -/
theorem named_refusedMove :
    Raised (.single .rename 1 (.system "x")) rootHost ownedSettings (.ofText "/auth.d") ⟨[], []⟩
        .empty refusedMove.2.calls .rename 1 ∧
      ∃ o, refusedMove.1 = .ok o ∧ o.success = false ∧ ∃ text target,
        Contents.texts ⟨[], []⟩ ownedSettings.serverName rootHost.name = .ok text ∧
          (changed .empty (.ofText "/auth.d") text)[1]? = some target ∧
          (Names o.message ((Path.ofText "/auth.d").child target.fileName) ↔
            Call.rename ≠ .createTemporary) ∧
          (Call.rename = .createTemporary → ∃ first,
            (changed .empty (.ofText "/auth.d") text)[0]? = some first ∧
              Names o.message ((Path.ofText "/auth.d").child first.fileName)) := by
  have hraised : Raised (.single .rename 1 (.system "x")) rootHost ownedSettings
      (.ofText "/auth.d") ⟨[], []⟩ .empty refusedMove.2.calls .rename 1 :=
    .planned (by decide) (by decide +kernel) (by simp)
  have hplan : ∀ c n m, FaultPlan.single .rename 1 (.system "x") c n ≠ some (.reported m) := by
    intro c n m
    unfold FaultPlan.single
    split <;> simp
  have hhost : rootHost.changeOwner ownedSettings.owner ownedSettings.group = .ok () := rfl
  obtain ⟨o, ho⟩ := endedBy_refusedMove.outcome rfl
  have hrun : refusedMove = (.ok o, refusedMove.2) := by
    rw [← ho]
  exact ⟨hraised, o, ho, named_iff hplan (by simp [hhost]) rfl (by decide) hrun hraised⟩

/-- The temporary file for the second target is refused, and the first target is named. -/
theorem misnamed_target :
    Raised (.single .createTemporary 1 (.system "x")) lenientHost plainSettings
        (.ofText "/auth.d") ⟨[], []⟩ .empty (refusedTemporary 1).2.calls .createTemporary 1 ∧
      ∃ o text, (refusedTemporary 1).1 = .ok o ∧
        Contents.texts ⟨[], []⟩ plainSettings.serverName lenientHost.name = .ok text ∧
        (changed .empty (.ofText "/auth.d") text)[1]? = some .limits ∧
        o.message = "Failed to write /auth.d/auth.conf: x" ∧
        ¬ Names o.message ((Path.ofText "/auth.d").child Target.limits.fileName) := by
  obtain ⟨o, ho, hm⟩ := exists_ok_of_map_toOption (x := (refusedTemporary 1).1)
    (f := Outcome.message) (b := "Failed to write /auth.d/auth.conf: x") (by decide +kernel)
  obtain ⟨text, htext, -⟩ := exists_ok_of_map_toOption (f := fun _ => ()) (b := ())
    (x := Contents.texts ⟨[], []⟩ plainSettings.serverName lenientHost.name) (by decide +kernel)
  have hnone : ∀ target : Target,
      shownText? .empty ((Path.ofText "/auth.d").child target.fileName) = none := by
    intro target
    cases target <;> decide +kernel
  refine ⟨.planned (by decide) (by decide +kernel) (by simp), o, text, ho, htext, ?_, hm, ?_⟩
  · simp [changed, hnone, Target.all]
  · have hwords : ("Failed to write /auth.d/auth.conf: x" : Text) =
        "Failed to write " ++ ((Path.ofText "/auth.d").child Target.auth.fileName).text ++ ": " ++
          "x" := by decide +kernel
    rw [hm, hwords]
    exact not_names_of_ne (by decide) _

end AccessPolicy.Deployment
