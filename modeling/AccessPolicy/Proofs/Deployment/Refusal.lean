import AccessPolicy.Proofs.Deployment.Marker
import AccessPolicy.Proofs.Deployment.Staging

/-!
# How steps end that are refused

A run meets a call that the plan refuses, a file or directory that the tree refuses, or an
account that the host does not know. Each step either tells of that in its failure or met no
such call (`Action.Tells`), and each failure carries a message unless it is due to a value.

`Deployment.findChanged_error` : comparing fails with a report. `Deployment.writeAll_ends` :
so does writing, once the first temporary file is made; the handler around staging names the
first file that is staged, and has no words where none is.
`Deployment.writeMarker_ends` : so does writing the marker.
-/

namespace AccessPolicy.Deployment

open AccessPolicy.Action (Tells Within IsPreorder)
open Session (Asks Unrefused)

variable {plan : FaultPlan} {host : Host} {settings : Settings} {dir : Path} {b : Blocks}
  {text : Target → Text} {s s' : Session}

theorem quiet : IsPreorder (Asks []) := Action.isPreorder_asks []

theorem quiet_of_calls (h : s'.calls = s.calls) : Asks [] s s' := .of_eq h

theorem append_ne_nil {a : Text} (h : a ≠ []) (c : Text) : a ++ c ≠ [] :=
  fun hnil => h (List.append_eq_nil_iff.1 hnil).1

theorem worded_ne_nil {words : Text} (h : words ≠ []) (name message : Text) :
    words ++ name ++ (": " : Text) ++ message ≠ [] :=
  append_ne_nil (append_ne_nil (append_ne_nil h _) _) _

theorem message_ne_nil (e : SystemError) (p : Path) : e.message p ≠ [] := by
  unfold SystemError.message
  simp only [List.append_assoc]
  exact append_ne_nil (by decide) _

/-! ## Single calls -/

/-- What a call that failed was refused with. -/
theorem call_refused (hplan : plan.Refuses) {c : Call} {e : Failure}
    (h : Action.call plan c s = (.error e, s')) :
    (∃ m, m ≠ [] ∧ e = .system m) ∨ c = .setOwner ∧ ∃ m, e = .lookup m := by
  obtain ⟨-, ⟨hok, -⟩ | ⟨x, hx, hpl⟩⟩ := Action.call_cases h
  · exact absurd hok (by simp)
  · rw [Except.error.inj hx]
    exact hplan _ _ _ hpl

theorem call_error (hplan : plan.Refuses) {c : Call} (hc : c ≠ .setOwner) {e : Failure}
    (h : Action.call plan c s = (.error e, s')) : ∃ m, m ≠ [] ∧ e = .system m :=
  (call_refused hplan h).resolve_right fun howner => hc howner.1

theorem query_error {α : Type} {p : Path} {f : FileTree → Except SystemError α} {e : Failure}
    (h : Action.query p f s = (.error e, s')) : ∃ m, m ≠ [] ∧ e = .system m := by
  rcases (Action.query_cases h).2 with ⟨a, ha, -⟩ | ⟨x, hx, -⟩
  · exact absurd ha (by simp)
  · exact ⟨_, message_ne_nil _ _, Except.error.inj hx⟩

theorem change_error {p : Path} {f : FileTree → Except SystemError FileTree} {e : Failure}
    (h : Action.change p f s = (.error e, s')) : ∃ m, m ≠ [] ∧ e = .system m := by
  rcases Action.change_cases h with ⟨t, hok, -, -⟩ | ⟨-, x, hx, -⟩
  · exact absurd hok (by simp)
  · exact ⟨_, message_ne_nil _ _, Except.error.inj hx⟩

/-! ## Comparing -/

theorem tells_currentText (hplan : plan.Refuses) (p : Path) : Tells plan (currentText plan p) := by
  refine Action.tells_bind (Action.tells_of_asks_nil (quiet.within_query _ _)) fun there => ?_
  split
  · refine Action.tells_bind (Action.tells_call hplan _) fun _ => ?_
    refine Action.tells_bind (Action.tells_of_asks_nil (quiet.within_query _ _)) fun bytes => ?_
    split
    · exact Action.tells_of_asks_nil (quiet.within_pure _)
    · exact Action.tells_of_asks_nil (quiet.within_fail _)
  · exact Action.tells_of_asks_nil (quiet.within_pure _)

theorem tells_reportAs {α : Type} (words : Text) {x : Action α} (hx : Tells plan x) :
    Tells plan (reportAs words x) := by
  refine Action.tells_onFailure hx (fun e => ?_) fun e ht s r s' h => ?_
  · split
    · exact quiet.within_fail _
    · exact quiet.within_fail _
  · split at h
    · exact ⟨_, (Action.fail_cases h).1, trivial⟩
    · exact ⟨_, (Action.fail_cases h).1, ht⟩

theorem tells_differs (hplan : plan.Refuses) (p : Path) (text : Text) :
    Tells plan (differs plan p text) := by
  refine Action.tells_bind (tells_reportAs _ (tells_currentText hplan p)) fun current => ?_
  split
  · exact Action.tells_of_asks_nil (quiet.within_bind (Action.within_modify fun _ => .of_eq rfl)
      fun _ => quiet.within_pure _)
  · exact Action.tells_of_asks_nil (quiet.within_pure _)

theorem tells_findChanged (hplan : plan.Refuses) (dir : Path) (text : Target → Text) :
    ∀ targets, Tells plan (findChanged plan dir text targets)
  | [] => Action.tells_of_asks_nil (quiet.within_pure _)
  | _ :: targets =>
    Action.tells_bind (tells_differs hplan _ _) fun _ =>
      Action.tells_bind (tells_findChanged hplan dir text targets) fun _ =>
        Action.tells_of_asks_nil (quiet.within_pure _)

/-- Nothing stands where the path leads, or a file that can be read. -/
def Readable (t : FileTree) (p : Path) : Prop :=
  t.hasNode p = .ok false ∨ t.hasNode p = .ok true ∧ ∃ bytes, t.read p = .ok bytes

theorem readable_of_shows {t : FileTree} {p : Path} (h : Shows t p) : Readable t p := by
  rcases h with habsent | ⟨x, hx⟩
  · exact .inl habsent
  · obtain ⟨hp, bytes, -, hread, -⟩ := shownText?_eq_some_iff.1 hx
    obtain ⟨bits, hnode⟩ := FileTree.read_eq_ok_iff.1 hread
    exact .inr ⟨by simp [FileTree.hasNode, hp, hnode], bytes, hread⟩

/-- A text that could not be read was refused by the system. -/
theorem currentText_error (hplan : plan.Refuses) {p : Path} {e : Failure}
    (h : currentText plan p s = (.error e, s')) : ∃ m, e = .system m := by
  unfold currentText at h
  rcases Action.bind_cases h with ⟨there, s₁, -, h⟩ | ⟨e', hq, he⟩
  · split at h
    · rcases Action.bind_cases h with ⟨u, s₂, -, h⟩ | ⟨e', hcall, he⟩
      · rcases Action.bind_cases h with ⟨bytes, s₃, -, h⟩ | ⟨e', hread, he⟩
        · cases ht : Utf8.decode bytes with
          | ok text =>
            rw [ht] at h
            exact absurd (Action.pure_cases h).1 (by simp)
          | error d =>
            rw [ht] at h
            exact ⟨_, Except.error.inj (Action.fail_cases h).1⟩
        · obtain ⟨m, -, hm⟩ := query_error hread
          exact ⟨m, (Except.error.inj he).trans hm⟩
      · obtain ⟨m, -, hm⟩ := call_error hplan (by decide) hcall
        exact ⟨m, (Except.error.inj he).trans hm⟩
    · exact absurd (Action.pure_cases h).1 (by simp)
  · obtain ⟨m, -, hm⟩ := query_error hq
    exact ⟨m, (Except.error.inj he).trans hm⟩

/-- A refusal by the system is reported under these words. -/
theorem reportAs_told {α : Type} {words : Text} (hwords : words ≠ []) {x : Action α} {e : Failure}
    (hx : ∀ {e s'}, x s = (.error e, s') → ∃ m, e = .system m)
    (h : reportAs words x s = (.error e, s')) : ∃ m, m ≠ [] ∧ e = .reported m := by
  rcases Action.onFailure_cases h with ⟨a, -, he⟩ | ⟨e', s₁, he', hh⟩
  · exact absurd he (by simp)
  · obtain ⟨m, rfl⟩ := hx he'
    refine ⟨_, ?_, Except.error.inj (Action.fail_cases hh).1⟩
    rw [List.append_assoc]
    exact append_ne_nil hwords _

theorem differs_error (hplan : plan.Refuses) {p : Path} {t : Text} {e : Failure}
    (h : differs plan p t s = (.error e, s')) : ∃ m, m ≠ [] ∧ e = .reported m := by
  rcases Action.bind_cases h with ⟨current, s₁, -, h⟩ | ⟨e', hr, he⟩
  · split at h
    · rcases Action.bind_cases h with ⟨u, s₂, -, h⟩ | ⟨e', hnote, -⟩
      · exact absurd (Action.pure_cases h).1 (by simp)
      · exact absurd (Action.modify_cases hnote).1 (by simp)
    · exact absurd (Action.pure_cases h).1 (by simp)
  · obtain rfl := Except.error.inj he
    exact reportAs_told (append_ne_nil (by decide) _) (currentText_error hplan) hr

theorem findChanged_error (hplan : plan.Refuses) : ∀ {targets : List Target} {s s' : Session}
    {e : Failure}, findChanged plan dir text targets s = (.error e, s') →
      ∃ m, m ≠ [] ∧ e = .reported m
  | [], _, _, _, h => absurd (Action.pure_cases h).1 (by simp)
  | _ :: _, _, _, _, h => by
    rcases Action.bind_cases h with ⟨differ, s₁, -, h⟩ | ⟨e', hd, he⟩
    · rcases Action.bind_cases h with ⟨rest, s₂, -, h⟩ | ⟨e', hrest, he⟩
      · exact absurd (Action.pure_cases h).1 (by simp)
      · exact Except.error.inj he ▸ findChanged_error hplan hrest
    · exact Except.error.inj he ▸ differs_error hplan hd

/-! ## Making the directory -/

/-- A directory that could not be made was refused with a message, or its path is no name. -/
def MakingFails (s : Session) (e : Failure) (s' : Session) : Prop :=
  (∃ m, m ≠ [] ∧ e = .system m) ∨ (∃ f, e = .fault f) ∧ s' = s

theorem makeOne_error (hplan : plan.Refuses) {p : Path} {e : Failure}
    (h : makeOne plan p s = (.error e, s')) : ∃ m, m ≠ [] ∧ e = .system m := by
  rcases Action.onFailure_cases h with ⟨u, -, he⟩ | ⟨e', s₁, hmake, hh⟩
  · exact absurd he (by simp)
  · have hsystem : ∃ m, m ≠ [] ∧ e' = .system m := by
      rcases Action.bind_cases hmake with ⟨u, s₂, -, hchange⟩ | ⟨x, hcall, hx⟩
      · exact change_error hchange
      · rw [Except.error.inj hx]
        exact call_error hplan (by decide) hcall
    obtain ⟨m, hm, rfl⟩ := hsystem
    rw [Action.get_bind] at hh
    simp only at hh
    split_ifs at hh
    · exact absurd (Action.pure_cases hh).1 (by simp)
    · exact ⟨m, hm, Except.error.inj (Action.fail_cases hh).1⟩

theorem makeAll_error (hplan : plan.Refuses) {root : Text} : ∀ {reversed : List Text}
    {s s' : Session} {e : Failure}, makeAll plan root reversed s = (.error e, s') →
      ∃ m, m ≠ [] ∧ e = .system m
  | [], _, _, _, h => makeOne_error hplan h
  | name :: above, s, s', e, h => by
    unfold makeAll at h
    rw [Action.get_bind] at h
    split at h
    · rcases Action.bind_cases h with ⟨u, s₁, -, h⟩ | ⟨x, hcall, hx⟩
      · rcases Action.bind_cases h with ⟨u, s₂, -, h⟩ | ⟨x, habove, hx⟩
        · exact makeOne_error hplan h
        · exact Except.error.inj hx ▸ makeAll_error hplan habove
      · exact Except.error.inj hx ▸ call_error hplan (by decide) hcall
    · exact makeOne_error hplan h

theorem makeDirectories_error (hplan : plan.Refuses) {p : Path} {e : Failure}
    (h : makeDirectories plan p s = (.error e, s')) : MakingFails s e s' := by
  unfold makeDirectories at h
  split_ifs at h
  · obtain ⟨he, hs⟩ := Action.fail_cases h
    exact .inr ⟨⟨_, Except.error.inj he⟩, hs⟩
  · obtain ⟨he, hs⟩ := Action.fail_cases h
    exact .inr ⟨⟨_, Except.error.inj he⟩, hs⟩
  · exact .inl (makeAll_error hplan h)

/-! ## Staging -/

theorem tells_createTemporary (hplan : plan.Refuses) (dir : Path) (a : Target) :
    Tells plan (createTemporary plan dir a) := by
  refine Action.tells_bind (Action.tells_call hplan _) fun _ => Action.tells_of_asks_nil ?_
  refine quiet.within_bind quiet.within_get fun s => ?_
  refine quiet.within_bind (quiet.within_query _ _) fun place => ?_
  exact quiet.within_bind (Action.within_modify fun _ => .of_eq rfl) fun _ => quiet.within_pure _

theorem tells_fillTemporary (hplan : plan.Refuses) (host : Host) (settings : Settings)
    (text : Text) (q : Place) : Tells plan (fillTemporary plan host settings text q) := by
  have hmodify : ∀ f : Session → Session, (∀ s, (f s).calls = s.calls) →
      Tells plan (Action.modify f) := fun f hf =>
    Action.tells_of_asks_nil (Action.within_modify fun s => .of_eq (hf s))
  refine Action.tells_bind (Action.tells_call hplan _) fun _ => ?_
  refine Action.tells_bind (Action.tells_of_asks_nil (quiet.within_ofFault _)) fun bytes => ?_
  refine Action.tells_bind (hmodify _ fun _ => rfl) fun _ => ?_
  refine Action.tells_bind (Action.tells_call hplan _) fun _ => ?_
  refine Action.tells_bind (Action.tells_of_asks_nil (quiet.within_ofFault _)) fun mode => ?_
  refine Action.tells_bind (hmodify _ fun _ => rfl) fun _ => ?_
  split
  · refine Action.tells_bind (Action.tells_call hplan _) fun _ => ?_
    split
    · exact hmodify _ fun _ => rfl
    · exact Action.tells_of_asks_nil (quiet.within_fail _)
  · exact Action.tells_of_asks_nil (quiet.within_pure _)

/-- Once filling ended, no call is made, and what was refused is worded. -/
theorem fillOrDiscard_after {path : Path} {text : Text} {q : Place} {r : Except Failure Unit}
    (h : fillOrDiscard plan host settings path text q s = (r, s')) :
    ∃ r₁ s₁, fillTemporary plan host settings text q s = (r₁, s₁) ∧ s'.calls = s₁.calls ∧
      ((∃ m, m ≠ [] ∧ r = .error (.reported m)) ∨
        r = r₁ ∧ ∀ m, r₁ ≠ .error (.system m) ∧ r₁ ≠ .error (.lookup m)) := by
  rcases Action.onFailure_cases h with ⟨u, hu, rfl⟩ | ⟨e, s₁, he, hh⟩
  · exact ⟨_, _, hu, rfl, .inr ⟨rfl, by simp⟩⟩
  refine ⟨_, _, he, ?_⟩
  cases e with
  | system message =>
    simp only [discard] at hh
    rw [Action.modify_bind] at hh
    obtain ⟨rfl, rfl⟩ := Action.fail_cases hh
    exact ⟨rfl, .inl ⟨_, worded_ne_nil (by decide) _ _, rfl⟩⟩
  | lookup message =>
    simp only [discard] at hh
    rw [Action.modify_bind] at hh
    obtain ⟨rfl, rfl⟩ := Action.fail_cases hh
    exact ⟨rfl, .inl ⟨_, worded_ne_nil (by decide) _ _, rfl⟩⟩
  | reported message =>
    obtain ⟨rfl, rfl⟩ := Action.fail_cases hh
    exact ⟨rfl, .inr ⟨rfl, by simp⟩⟩
  | fault f =>
    obtain ⟨rfl, rfl⟩ := Action.fail_cases hh
    exact ⟨rfl, .inr ⟨rfl, by simp⟩⟩

theorem calls_fillOrDiscard {path : Path} {text : Text} {q : Place} {r : Except Failure Unit}
    (h : fillOrDiscard plan host settings path text q s = (r, s')) :
    ∃ cs, s'.calls = s.calls ++ .write :: cs := by
  obtain ⟨r₁, s₁, hfill, hcalls, -⟩ := fillOrDiscard_after h
  obtain ⟨cs, hcs, -⟩ := calls_fillTemporary hfill
  exact ⟨cs, hcalls.trans hcs⟩

theorem tells_fillOrDiscard (hplan : plan.Refuses) (host : Host) (settings : Settings)
    (path : Path) (text : Text) (q : Place) :
    Tells plan (fillOrDiscard plan host settings path text q) := by
  intro s r s' h hr
  obtain ⟨r₁, s₁, hfill, hcalls, ⟨m, -, rfl⟩ | ⟨rfl, -⟩⟩ := fillOrDiscard_after h
  · exact absurd trivial (hr _ rfl)
  · exact Action.unrefused_trans (tells_fillTemporary hplan host settings text q _ _ _ hfill hr)
      (Action.unrefused_of_calls hcalls)

theorem tells_stage (hplan : plan.Refuses) (host : Host) (settings : Settings) (dir : Path)
    (text : Target → Text) (a : Target) : Tells plan (stage plan host settings dir text a) :=
  Action.tells_bind (tells_createTemporary hplan dir a) fun q =>
    Action.tells_bind (tells_fillOrDiscard hplan host settings _ _ q) fun _ =>
      Action.tells_of_asks_nil (Action.within_modify fun _ => .of_eq rfl)

theorem tells_install (hplan : plan.Refuses) (e : Staged) : Tells plan (install plan e) :=
  Action.tells_bind (Action.tells_call hplan _) fun _ =>
    Action.tells_of_asks_nil (quiet.within_bind (Action.asks_change _ _) fun _ =>
      quiet.within_bind (Action.within_modify fun _ => .of_eq rfl) fun _ =>
        Action.within_modify fun _ => .of_eq rfl)

theorem tells_stageAndInstall (hplan : plan.Refuses) (host : Host) (settings : Settings)
    (dir : Path) (text : Target → Text) (targets : List Target) :
    Tells plan (stageAndInstall plan host settings dir text targets) :=
  Action.tells_bind (Action.tells_forEach (tells_stage hplan host settings dir text) targets)
    fun _ => Action.tells_bind (Action.tells_of_asks_nil quiet.within_get)
      fun s => Action.tells_forEach (tells_install hplan) s.staged

/-- The last call was made for a value that could not be worked on : the bytes of a text, the
permission bits or the owner. -/
def EndsAtValue (host : Host) (settings : Settings) (calls : List Call) : Prop :=
  calls.getLast? = some .write ∨ calls.getLast? = some .setMode ∨
    calls.getLast? = some .setOwner ∧
      ∃ f, host.changeOwner settings.owner settings.group = .error (.fault f)

/-- A temporary file that could not be filled was refused, or a value stood against it. -/
theorem fillTemporary_error (hplan : plan.Refuses)
    (hhost : ∀ m, host.changeOwner settings.owner settings.group ≠ .error (.reported m))
    {text : Text} {q : Place} {e : Failure}
    (h : fillTemporary plan host settings text q s = (.error e, s')) :
    (∃ m, e = .system m ∨ e = .lookup m) ∨
      ∃ f, e = .fault f ∧ EndsAtValue host settings s'.calls := by
  have hcall : ∀ {c s s' e}, Action.call plan c s = (.error e, s') →
      ∃ m, e = .system m ∨ e = .lookup m := by
    intro c s s' e h
    rcases call_refused hplan h with ⟨m, -, hm⟩ | ⟨-, m, hm⟩
    · exact ⟨m, .inl hm⟩
    · exact ⟨m, .inr hm⟩
  rcases Action.bind_cases h with ⟨u, s₁, hwrite, h⟩ | ⟨x, hwrite, hx⟩
  swap
  · exact .inl (hcall (Except.error.inj hx ▸ hwrite))
  obtain ⟨rfl, -⟩ := Action.call_cases hwrite
  rcases Action.bind_cases h with ⟨bytes, s₂, henc, h⟩ | ⟨x, henc, hx⟩
  swap
  · obtain ⟨rfl, ⟨a, -, ha⟩ | ⟨f, -, hf⟩⟩ := Action.ofFault_cases henc
    · exact absurd ha (by simp)
    · rw [Except.error.inj hx, Except.error.inj hf]
      exact .inr ⟨f, rfl, .inl (by simp)⟩
  rw [(Action.ofFault_cases henc).1, Action.modify_bind] at h
  rcases Action.bind_cases h with ⟨u, s₃, hset, h⟩ | ⟨x, hset, hx⟩
  swap
  · exact .inl (hcall (Except.error.inj hx ▸ hset))
  obtain ⟨rfl, -⟩ := Action.call_cases hset
  rcases Action.bind_cases h with ⟨mode, s₄, hmode, h⟩ | ⟨x, hmode, hx⟩
  swap
  · obtain ⟨rfl, ⟨a, -, ha⟩ | ⟨f, -, hf⟩⟩ := Action.ofFault_cases hmode
    · exact absurd ha (by simp)
    · rw [Except.error.inj hx, Except.error.inj hf]
      exact .inr ⟨f, rfl, .inr (.inl (by simp))⟩
  rw [(Action.ofFault_cases hmode).1, Action.modify_bind] at h
  split at h
  swap
  · exact absurd (Action.pure_cases h).1 (by simp)
  rcases Action.bind_cases h with ⟨u, s₅, howner, h⟩ | ⟨x, howner, hx⟩
  swap
  · exact .inl (hcall (Except.error.inj hx ▸ howner))
  obtain ⟨rfl, -⟩ := Action.call_cases howner
  cases hchange : host.changeOwner settings.owner settings.group with
  | ok u =>
    rw [hchange] at h
    exact absurd (Action.modify_cases h).1 (by simp)
  | error x =>
    rw [hchange] at h
    obtain ⟨hx, rfl⟩ := Action.fail_cases h
    rw [Except.error.inj hx]
    cases x with
    | system m => exact .inl ⟨m, .inl rfl⟩
    | lookup m => exact .inl ⟨m, .inr rfl⟩
    | reported m => exact absurd hchange (hhost m)
    | fault f => exact .inr ⟨f, rfl, .inr (.inr ⟨by simp, f, hchange⟩)⟩

/-- Writing was refused with a message, or a value stood against it. -/
def WritingFails (host : Host) (settings : Settings) (e : Failure) (s' : Session) : Prop :=
  (∃ m, m ≠ [] ∧ e = .reported m) ∨ ∃ f, e = .fault f ∧ EndsAtValue host settings s'.calls

theorem fillOrDiscard_error (hplan : plan.Refuses)
    (hhost : ∀ m, host.changeOwner settings.owner settings.group ≠ .error (.reported m))
    {path : Path} {text : Text} {q : Place} {e : Failure}
    (h : fillOrDiscard plan host settings path text q s = (.error e, s')) :
    WritingFails host settings e s' := by
  obtain ⟨r₁, s₁, hfill, hcalls, ⟨m, hm, he⟩ | ⟨rfl, hpassed⟩⟩ := fillOrDiscard_after h
  · exact .inl ⟨m, hm, Except.error.inj he⟩
  · rcases fillTemporary_error hplan hhost hfill with ⟨m, rfl | rfl⟩ | ⟨f, rfl, hends⟩
    · exact absurd rfl (hpassed m).1
    · exact absurd rfl (hpassed m).2
    · exact .inr ⟨f, rfl, hcalls ▸ hends⟩

theorem createTemporary_error (hplan : plan.Refuses) {a : Target} {e : Failure}
    (h : createTemporary plan dir a s = (.error e, s')) : ∃ m, m ≠ [] ∧ e = .system m := by
  rcases Action.bind_cases h with ⟨u, s₁, -, hrest⟩ | ⟨x, hcall, hx⟩
  · rw [Action.get_bind] at hrest
    rcases Action.bind_cases hrest with ⟨q, s₂, -, hrest⟩ | ⟨x, hq, hx⟩
    · rw [Action.modify_bind] at hrest
      exact absurd (Action.pure_cases hrest).1 (by simp)
    · rw [Except.error.inj hx]
      exact query_error hq
  · rw [Except.error.inj hx]
    exact call_error hplan (by decide) hcall

/-- The first temporary file was made and its writing began. -/
def Begun (plan : FaultPlan) (s s' : Session) : Prop :=
  plan .createTemporary (s.calls.count .createTemporary) = none ∧
    ∃ cs, s'.calls = s.calls ++ .createTemporary :: .write :: cs

theorem Begun.trans {s₁ : Session} {kinds : List Call} (h : Begun plan s s₁)
    (h' : Asks kinds s₁ s') : Begun plan s s' := by
  obtain ⟨hnone, cs, hcs⟩ := h
  obtain ⟨cs', hcs', -⟩ := h'
  exact ⟨hnone, cs ++ cs', by rw [hcs', hcs]; simp⟩

/-- Staging a file is refused before there is a temporary file, or it begins to write one. -/
theorem stage_ends (hplan : plan.Refuses)
    (hhost : ∀ m, host.changeOwner settings.owner settings.group ≠ .error (.reported m))
    {a : Target} {r : Except Failure Unit} (h : stage plan host settings dir text a s = (r, s')) :
    (∃ m, m ≠ [] ∧ r = .error (.system m) ∧ s'.calls = s.calls ++ [.createTemporary] ∧
      s'.staged = s.staged) ∨
      Begun plan s s' ∧ (r = .ok () ∧ s'.staged ≠ [] ∨
        ∃ e, r = .error e ∧ WritingFails host settings e s') := by
  rcases Action.bind_cases h with ⟨q, s₁, hq, hrest⟩ | ⟨e, hq, rfl⟩
  · have hcalls := calls_createTemporary hq
    obtain ⟨u, s₂, hcall, -⟩ := Action.bind_ok hq
    have hnone : plan .createTemporary (s.calls.count .createTemporary) = none := by
      rcases (Action.call_cases hcall).2 with ⟨-, hnone⟩ | ⟨e, he, -⟩
      · exact hnone
      · exact absurd he (by simp)
    change (fillOrDiscard plan host settings _ _ _ >>= _) _ = _ at hrest
    have hbegun : ∀ {x s₃}, fillOrDiscard plan host settings (dir.child a.fileName) (text a) q
        s₁ = (x, s₃) → Begun plan s s₃ := by
      intro x s₃ hx
      refine ⟨hnone, ?_⟩
      obtain ⟨cs, hcs⟩ := calls_fillOrDiscard hx
      exact ⟨cs, by rw [hcs, hcalls, List.append_assoc]; rfl⟩
    rcases Action.bind_cases hrest with ⟨u, s₃, hfill, hmod⟩ | ⟨e, hfill, rfl⟩
    · obtain ⟨rfl, rfl⟩ := Action.modify_cases hmod
      have hbegun₃ : Begun plan s s₃ := hbegun hfill
      exact .inr ⟨hbegun₃, .inl ⟨rfl, by simp⟩⟩
    · exact .inr ⟨hbegun hfill, .inr ⟨e, rfl, fillOrDiscard_error hplan hhost hfill⟩⟩
  · obtain ⟨m, hm, rfl⟩ := createTemporary_error hplan hq
    refine .inl ⟨m, hm, rfl, calls_createTemporary hq, ?_⟩
    rcases createTemporary_cases hq with ⟨-, -, -, hstaged⟩ | ⟨d, name, -, hok, -⟩
    · exact hstaged
    · exact absurd hok (by simp)

/-- Once a file is staged, staging more ends well, is refused, or stops at a value. -/
theorem forEach_stage_ends (hplan : plan.Refuses)
    (hhost : ∀ m, host.changeOwner settings.owner settings.group ≠ .error (.reported m)) :
    ∀ {targets : List Target} {s s' : Session} {r : Except Failure Unit}, s.staged ≠ [] →
      Action.forEach (stage plan host settings dir text) targets s = (r, s') →
      (r = .ok () ∧ s'.staged ≠ []) ∨ (∃ m, m ≠ [] ∧ r = .error (.system m) ∧ s'.staged ≠ []) ∨
        ∃ e, r = .error e ∧ WritingFails host settings e s'
  | [], _, _, _, hs, h => by
    obtain ⟨rfl, rfl⟩ := Action.pure_cases h
    exact .inl ⟨rfl, hs⟩
  | a :: targets, s, s', r, hs, h => by
    rcases Action.bind_cases h with ⟨u, s₁, ha, hrest⟩ | ⟨e, ha, rfl⟩
    · rcases stage_ends hplan hhost ha with ⟨m, -, hm, -⟩ | ⟨-, ⟨-, hs₁⟩ | ⟨e, he, -⟩⟩
      · exact absurd hm (by simp)
      · exact forEach_stage_ends hplan hhost hs₁ hrest
      · exact absurd he (by simp)
    · rcases stage_ends hplan hhost ha with ⟨m, hm, he, -, hs₁⟩ | ⟨-, ⟨hok, -⟩ | ⟨x, hx, hfails⟩⟩
      · exact .inr (.inl ⟨m, hm, congrArg _ (Except.error.inj he), hs₁ ▸ hs⟩)
      · exact absurd hok (by simp)
      · exact .inr (.inr ⟨x, congrArg _ (Except.error.inj hx), hfails⟩)

/-! ## Moving into place -/

theorem install_error (hplan : plan.Refuses) {a : Staged} {e : Failure}
    (h : install plan a s = (.error e, s')) :
    ∃ m, m ≠ [] ∧ e = .system m ∧ s'.staged = s.staged := by
  rcases Action.bind_cases h with ⟨u, s₁, hcall, hrest⟩ | ⟨x, hcall, hx⟩
  · obtain ⟨rfl, -⟩ := Action.call_cases hcall
    rcases Action.bind_cases hrest with ⟨u, s₂, hren, hrest⟩ | ⟨x, hren, hx⟩
    · rw [Action.modify_bind] at hrest
      exact absurd (Action.modify_cases hrest).1 (by simp)
    · obtain ⟨m, hm, rfl⟩ := change_error (Except.error.inj hx ▸ hren)
      refine ⟨m, hm, rfl, ?_⟩
      rcases Action.change_cases hren with ⟨t, -, -, rfl⟩ | ⟨rfl, -⟩
      · rfl
      · rfl
  · obtain ⟨m, hm, he⟩ := call_error hplan (by decide) hcall
    rw [(Action.call_cases hcall).1]
    exact ⟨m, hm, (Except.error.inj hx).trans he, rfl⟩

theorem staged_of_install {a : Staged} (h : install plan a s = (.ok (), s')) :
    s'.staged = s.staged.drop 1 := by
  obtain ⟨u, s₁, hcall, hrest⟩ := Action.bind_ok h
  obtain ⟨rfl, -⟩ := Action.call_cases hcall
  obtain ⟨u, s₂, hren, hrest⟩ := Action.bind_ok hrest
  rcases Action.change_cases hren with ⟨t, -, -, rfl⟩ | ⟨-, e, he, -⟩
  · rw [Action.modify_bind] at hrest
    rw [(Action.modify_cases hrest).2]
  · exact absurd he (by simp)

theorem forEach_install_error (hplan : plan.Refuses) : ∀ {staged : List Staged}
    {s s' : Session} {e : Failure}, s.staged = staged →
      Action.forEach (install plan) staged s = (.error e, s') →
      ∃ m, m ≠ [] ∧ e = .system m ∧ s'.staged ≠ []
  | [], _, _, _, _, h => absurd (Action.pure_cases h).1 (by simp)
  | a :: staged, s, s', e, hs, h => by
    rcases Action.bind_cases h with ⟨u, s₁, ha, hrest⟩ | ⟨x, ha, hx⟩
    · refine forEach_install_error hplan ?_ hrest
      rw [staged_of_install ha, hs, List.drop_one, List.tail_cons]
    · obtain ⟨m, hm, rfl, hs'⟩ := install_error hplan ha
      exact ⟨m, hm, Except.error.inj hx, by simp [hs', hs]⟩

theorem stageAndInstall_ends (hplan : plan.Refuses)
    (hhost : ∀ m, host.changeOwner settings.owner settings.group ≠ .error (.reported m))
    {targets : List Target} {r : Except Failure Unit} (hs : s.staged = []) (hne : targets ≠ [])
    (h : stageAndInstall plan host settings dir text targets s = (r, s')) :
    (∃ m, r = .error (.system m) ∧ s'.calls = s.calls ++ [.createTemporary] ∧ s'.staged = []) ∨
      Begun plan s s' ∧ (r = .ok () ∨ (∃ m, m ≠ [] ∧ r = .error (.system m) ∧ s'.staged ≠ []) ∨
        ∃ e, r = .error e ∧ WritingFails host settings e s') := by
  obtain ⟨a, targets, rfl⟩ := List.exists_cons_of_ne_nil hne
  have hR := Action.isPreorder_asks (.rename :: stagingCalls)
  have hlater : Within (Asks (.rename :: stagingCalls))
      (stageAndInstall plan host settings dir text targets) :=
    hR.within_bind (hR.within_forEach (asks_stage_rename plan host settings dir text) targets)
      fun _ => hR.within_bind hR.within_get fun s => hR.within_forEach (asks_install plan) s.staged
  rw [stageAndInstall_cons] at h
  rcases Action.bind_cases h with ⟨u, s₁, ha, hrest⟩ | ⟨e, ha, rfl⟩
  · rcases stage_ends hplan hhost ha with ⟨m, -, hm, -⟩ | ⟨hbegun, ⟨-, hs₁⟩ | ⟨e, he, -⟩⟩
    · exact absurd hm (by simp)
    swap
    · exact absurd he (by simp)
    refine .inr ⟨hbegun.trans (hlater _ _ _ hrest), ?_⟩
    rcases Action.bind_cases hrest with ⟨u, s₂, hst, hrest⟩ | ⟨e, hst, rfl⟩
    · rw [Action.get_bind] at hrest
      cases r with
      | ok u => exact .inl rfl
      | error e =>
        obtain ⟨m, hm, rfl, hs'⟩ := forEach_install_error hplan rfl hrest
        exact .inr (.inl ⟨m, hm, rfl, hs'⟩)
    · rcases forEach_stage_ends hplan hhost hs₁ hst with ⟨hok, -⟩ | ⟨m, hm, he, hs'⟩ | hfails
      · exact absurd hok (by simp)
      · exact .inr (.inl ⟨m, hm, congrArg _ (Except.error.inj he), hs'⟩)
      · obtain ⟨x, hx, hfails⟩ := hfails
        exact .inr (.inr ⟨x, congrArg _ (Except.error.inj hx), hfails⟩)
  · rcases stage_ends hplan hhost ha with ⟨m, -, he, hcalls, hs'⟩ | ⟨hbegun, ⟨hok, -⟩ | hfails⟩
    · exact .inl ⟨m, congrArg _ (Except.error.inj he), hcalls, hs'.trans hs⟩
    · exact absurd hok (by simp)
    · obtain ⟨x, hx, hfails⟩ := hfails
      exact .inr ⟨hbegun, .inr (.inr ⟨x, congrArg _ (Except.error.inj hx), hfails⟩)⟩

/-- A failure that was refused is told of with a message. One of a value met no refusal. -/
def Settles (plan : FaultPlan) (host : Host) (settings : Settings) (s : Session) :
    Except Failure Unit → Session → Prop
  | .ok _, s' => Unrefused plan s s'
  | .error e, s' => WritingFails host settings e s' ∧ (¬ e.IsTold → Unrefused plan s s')

/-- The handler around staging and moving has no words where no file is staged. -/
theorem writeAll_ends (hplan : plan.Refuses)
    (hhost : ∀ m, host.changeOwner settings.owner settings.group ≠ .error (.reported m))
    {targets : List Target} {r : Except Failure Unit} (hs : s.staged = []) (hne : targets ≠ [])
    (h : writeAll plan host settings dir text targets s = (r, s')) :
    (r = .error (.fault .nothingStaged) ∧ s'.calls = s.calls ++ [.createTemporary]) ∨
      Begun plan s s' ∧ Settles plan host settings s r s' := by
  obtain ⟨s₁, hbody, rfl⟩ := Action.endingWith_cases h
  have hcalls : (discardStaged s₁).2.calls = s₁.calls := by rw [discardStaged_eq]
  have htells := tells_stageAndInstall hplan host settings dir text targets
  rcases Action.onFailure_cases hbody with ⟨u, hu, rfl⟩ | ⟨e, s₂, he, hh⟩
  · rcases stageAndInstall_ends hplan hhost hs hne hu with ⟨m, hm, -⟩ | ⟨hbegun, -⟩
    · exact absurd hm (by simp)
    · refine .inr ⟨hbegun.trans (quiet_of_calls hcalls), ?_⟩
      exact Action.unrefused_trans (htells _ _ _ hu (by simp)) (Action.unrefused_of_calls hcalls)
  · rcases stageAndInstall_ends hplan hhost hs hne he with
      ⟨m, hm, hfirst, hnil⟩ | ⟨hbegun, hok | ⟨m, hm, hx, hstaged⟩ | ⟨x, hx, hfails⟩⟩
    · obtain rfl := Except.error.inj hm
      simp only at hh
      rw [Action.get_bind, hnil] at hh
      obtain ⟨rfl, rfl⟩ := Action.fail_cases hh
      exact .inl ⟨rfl, hcalls.trans hfirst⟩
    · exact absurd hok (by simp)
    · obtain rfl := Except.error.inj hx
      obtain ⟨first, others, hcons⟩ := List.exists_cons_of_ne_nil hstaged
      simp only at hh
      rw [Action.get_bind, hcons] at hh
      obtain ⟨rfl, rfl⟩ := Action.fail_cases hh
      refine .inr ⟨hbegun.trans (quiet_of_calls hcalls), .inl ⟨_, ?_, rfl⟩,
        by simp [Failure.IsTold]⟩
      exact worded_ne_nil (by decide) _ _
    · obtain rfl := Except.error.inj hx
      rcases hfails with ⟨m, hm, rfl⟩ | ⟨f, rfl, hvalue⟩
      · obtain ⟨rfl, rfl⟩ := Action.fail_cases hh
        exact .inr ⟨hbegun.trans (quiet_of_calls hcalls), .inl ⟨m, hm, rfl⟩,
          by simp [Failure.IsTold]⟩
      · obtain ⟨rfl, rfl⟩ := Action.fail_cases hh
        have hunrefused := htells _ _ _ he fun e he' => by
          rw [← Except.error.inj he']
          exact id
        refine .inr ⟨hbegun.trans (quiet_of_calls hcalls), .inr ⟨f, rfl, hcalls ▸ hvalue⟩, ?_⟩
        exact fun _ => Action.unrefused_trans hunrefused (Action.unrefused_of_calls hcalls)

/-! ## The marker -/

theorem tells_overwrite (hplan : plan.Refuses) (p : Path) (bytes : List UInt8) :
    Tells plan (overwrite plan p bytes) :=
  tells_reportAs _ (Action.tells_bind (Action.tells_call hplan _) fun _ =>
    Action.tells_bind (Action.tells_of_asks_nil (Action.asks_change _ _)) fun _ =>
      Action.tells_bind (Action.tells_call hplan _) fun _ =>
        Action.tells_of_asks_nil (Action.asks_change _ _))

theorem overwrite_told (hplan : plan.Refuses) {p : Path} {bytes : List UInt8} {e : Failure}
    (h : overwrite plan p bytes s = (.error e, s')) : ∃ m, m ≠ [] ∧ e = .reported m := by
  refine reportAs_told (append_ne_nil (by decide) _) (fun {e s'} hbody => ?_) h
  have hsystem : ∃ m, m ≠ [] ∧ e = .system m := by
    rcases Action.bind_cases hbody with ⟨u, s₁, -, h⟩ | ⟨x, hopen, hx⟩
    swap
    · exact Except.error.inj hx ▸ call_error hplan (by decide) hopen
    rcases Action.bind_cases h with ⟨u, s₂, -, h⟩ | ⟨x, hempty, hx⟩
    swap
    · exact Except.error.inj hx ▸ change_error hempty
    rcases Action.bind_cases h with ⟨u, s₃, -, h⟩ | ⟨x, hwrite, hx⟩
    swap
    · exact Except.error.inj hx ▸ call_error hplan (by decide) hwrite
    exact change_error h
  obtain ⟨m, -, rfl⟩ := hsystem
  exact ⟨m, rfl⟩

/-- Writing the marker is refused with a message, or it ends with its last call. -/
theorem writeMarker_ends (hplan : plan.Refuses) {server : Entries}
    (hserver : settings.passthrough = .ok server) {targets : List Target}
    {r : Except Failure Unit}
    (h : writeMarker plan host settings dir targets b s = (r, s')) :
    (∃ m, m ≠ [] ∧ r = .error (.reported m)) ∨
      (∀ e, r = .error e → ¬ e.IsTold) ∧ s'.calls.getLast? = some .write ∧
        Unrefused plan s s' := by
  unfold writeMarker at h
  rw [hserver, Action.ofFault_bind] at h
  change (overwrite plan _ (Utf8.encode (markerDocument host targets b server).json.text) >>=
    fun _ => acknowledge _ (markerDocument host targets b server).json.fault) _ = _ at h
  rcases Action.bind_cases h with ⟨u, s₁, hwrite, hnote⟩ | ⟨e, hwrite, rfl⟩
  · obtain ⟨hcalls, -⟩ := overwrite_ok hwrite
    have hunrefused := tells_overwrite hplan _ _ _ _ _ hwrite (by simp)
    have hlast : s₁.calls.getLast? = some .write := by
      rw [hcalls]
      simp
    cases hfault : (markerDocument host targets b server).json.fault with
    | none =>
      rw [hfault, acknowledge, Action.note] at hnote
      obtain ⟨rfl, rfl⟩ := Action.modify_cases hnote
      exact .inr ⟨by simp, hlast, hunrefused⟩
    | some f =>
      rw [hfault, acknowledge] at hnote
      obtain ⟨rfl, rfl⟩ := Action.fail_cases hnote
      exact .inr ⟨fun e he => Except.error.inj he ▸ id, hlast, hunrefused⟩
  · obtain ⟨m, hm, rfl⟩ := overwrite_told hplan hwrite
    exact .inl ⟨m, hm, rfl⟩

theorem asks_writeMarker {targets : List Target} :
    Within (Asks [.openMarker, .write]) (writeMarker plan host settings dir targets b) :=
  fun _ _ _ h => (within_writeMarker _ _ _ _ _ _ _ _ _ h).asks

end AccessPolicy.Deployment
