import AccessPolicy.Proofs.Deployment.Refusal

/-!
# Refusals are reported

`Deployment.Raised` : a call of a run was refused, by its plan, by the tree, or for want of an
account. `Deployment.reported_iff` : every run in which one was ends in an outcome without
success that has a message, except for one. Where the first temporary file cannot be made,
the run ends in a fault (`Deployment.nothing_staged`).
-/

namespace AccessPolicy.Deployment

open AccessPolicy.Action (Tells Within IsPreorder)
open Session (Asks Unrefused)

variable {plan : FaultPlan} {host : Host} {settings : Settings} {dir : Path} {b : Blocks}
  {text : Target → Text} {s s' : Session}

/-! ## Comparing -/

/-- What comparing ends in : an outcome without success, or nothing was refused. -/
theorem found_ends (hplan : plan.Refuses) {dryRun : Bool}
    {x : Except Failure (Except Outcome (List Target))}
    (h : found plan dir text dryRun s = (x, s')) :
    (∃ o, x = .ok (.error o) ∧ o.success = false ∧ o.message ≠ []) ∨
      ∃ targets, x = .ok (.ok targets) ∧
        (∀ target : Target, Readable s.tree (dir.child target.fileName)) ∧ Unrefused plan s s' := by
  rcases Action.onFailure_cases h with ⟨y, hy, rfl⟩ | ⟨e, s₁, he, hh⟩
  · obtain ⟨targets, s₁, hf, hp⟩ := Action.bind_ok hy
    obtain ⟨hy, rfl⟩ := Action.pure_cases hp
    have hunrefused := tells_findChanged hplan dir text _ _ _ _ hf (by simp)
    refine .inr ⟨targets, hy, fun target => ?_, hunrefused⟩
    exact readable_of_shows (shows_of_findChanged hf target target.mem_all)
  · rcases Action.bind_cases he with ⟨targets, s₂, -, hp⟩ | ⟨e', hf, hx⟩
    · exact absurd (Action.pure_cases hp).1 (by simp)
    · obtain ⟨m, hm, rfl⟩ := findChanged_error hplan hf
      obtain rfl := Except.error.inj hx
      exact .inl ⟨_, (Action.pure_cases hh).1, rfl, hm⟩

/-! ## Writing -/

/-- How writing the files and the marker ends. -/
inductive Applied (plan : FaultPlan) (host : Host) (settings : Settings) (s : Session) :
    Except Failure Outcome → Session → Prop
  /-- The directory was refused. -/
  | noDirectory {m : Text} {s' : Session} : m ≠ [] → Asks [.makeDirectory] s s' →
      Applied plan host settings s (.error (.system m)) s'
  /-- The first temporary file was refused. -/
  | nothingStaged {cs : List Call} {s' : Session} : (∀ c ∈ cs, c = .makeDirectory) →
      s'.calls = s.calls ++ cs ++ [.createTemporary] →
      Applied plan host settings s (.error (.fault .nothingStaged)) s'
  /-- A later call was refused. -/
  | told {m : Text} {cs cs' : List Call} {s' : Session} : m ≠ [] →
      plan .createTemporary (s.calls.count .createTemporary) = none →
      s'.calls = cs ++ .createTemporary :: .write :: cs' →
      Applied plan host settings s (.error (.reported m)) s'
  /-- No call was refused, but for directories that are there. -/
  | unrefused {r : Except Failure Outcome} {s' : Session} : (∀ e, r = .error e → ¬ e.IsTold) →
      s'.calls = s.calls ∨ EndsAtValue host settings s'.calls →
      (∀ c n, c ≠ .makeDirectory → s.calls.count c ≤ n → n < s'.calls.count c →
        plan c n = none) →
      Applied plan host settings s r s'

theorem apply_ends (hplan : plan.Refuses)
    (hhost : ∀ m, host.changeOwner settings.owner settings.group ≠ .error (.reported m))
    {server : Entries} (hserver : settings.passthrough = .ok server) {targets : List Target}
    {r : Except Failure Outcome} (hs : s.staged = []) (hne : targets ≠ [])
    (h : apply plan host settings dir b text targets s = (r, s')) :
    Applied plan host settings s r s' := by
  rcases Action.bind_cases h with ⟨u, s₁, hmake, h⟩ | ⟨e, hmake, rfl⟩
  swap
  · rcases makeDirectories_error hplan hmake with ⟨m, hm, rfl⟩ | ⟨⟨f, rfl⟩, rfl⟩
    · exact .noDirectory hm (within_makeDirectories plan dir _ _ _ hmake).asks
    · exact .unrefused (fun e he => Except.error.inj he ▸ id) (.inl rfl) fun c n _ hle hlt =>
        absurd hlt (by omega)
  have hpasses := within_makeDirectories plan dir _ _ _ hmake
  have hcount : ∀ c ≠ Call.makeDirectory, s₁.calls.count c = s.calls.count c := fun c hc =>
    hpasses.asks.count_eq (by simpa using hc)
  have hsince : ∀ {s₂}, Unrefused plan s₁ s₂ → ∀ c n, c ≠ .makeDirectory →
      s.calls.count c ≤ n → n < s₂.calls.count c → plan c n = none := fun hun c n hc hle hlt =>
    hun c n (by rwa [hcount c hc]) hlt
  obtain ⟨cs, hcs, hmakes⟩ := hpasses.asks
  have hbegins : ∀ {s₂}, Begun plan s₁ s₂ →
      plan .createTemporary (s.calls.count .createTemporary) = none ∧
        ∃ cs cs', s₂.calls = cs ++ .createTemporary :: .write :: cs' := by
    rintro s₂ ⟨hnone, cs', hcs'⟩
    rw [hcount _ (by decide)] at hnone
    exact ⟨hnone, _, _, hcs'⟩
  have hstaged := hpasses.staged.trans hs
  rcases Action.bind_cases h with ⟨u, s₂, hwrite, h⟩ | ⟨e, hwrite, rfl⟩
  · rcases writeAll_ends hplan hhost hstaged hne hwrite with ⟨hf, -⟩ | ⟨hbegun, hun⟩
    · exact absurd hf (by simp)
    rcases Action.bind_cases h with ⟨u, s₃, hmarker, h⟩ | ⟨e, hmarker, rfl⟩
    · obtain ⟨rfl, rfl⟩ := Action.pure_cases h
      rcases writeMarker_ends hplan hserver hmarker with ⟨m, -, he⟩ | ⟨-, hlast, hun'⟩
      · exact absurd he (by simp)
      · exact .unrefused (by simp) (.inr (.inl hlast)) (hsince (Action.unrefused_trans hun hun'))
    · rcases writeMarker_ends hplan hserver hmarker with ⟨m, hm, he⟩ | ⟨hf, hlast, hun'⟩
      · obtain rfl := Except.error.inj he
        obtain ⟨hnone, cs, cs', hcs'⟩ := hbegins (hbegun.trans (asks_writeMarker _ _ _ hmarker))
        exact .told hm hnone hcs'
      · exact .unrefused (fun x hx => hf x (congrArg _ (Except.error.inj hx))) (.inr (.inl hlast))
          (hsince (Action.unrefused_trans hun hun'))
  · rcases writeAll_ends hplan hhost hstaged hne hwrite with ⟨hf, hcalls⟩ | ⟨hbegun, hfails, hun⟩
    · obtain rfl := Except.error.inj hf
      exact .nothingStaged (fun c hc => by simpa using hmakes c hc) (by rw [hcalls, hcs])
    · obtain ⟨hnone, cs, cs', hcs'⟩ := hbegins hbegun
      rcases hfails with ⟨m, hm, rfl⟩ | ⟨f, rfl, hvalue⟩
      · exact .told hm hnone hcs'
      · exact .unrefused (fun e he => Except.error.inj he ▸ id) (.inr hvalue) (hsince (hun id))

/-! ## The run -/

/-- A call of a run that was refused : the call of this kind with this index. -/
inductive Raised (plan : FaultPlan) (host : Host) (settings : Settings) (dir : Path) (b : Blocks)
    (t : FileTree) (calls : List Call) : Call → Nat → Prop
  /-- The plan refused it. A directory that is there need not be made, so there the run ended. -/
  | planned {c : Call} {n : Nat} : (plan c n).isSome → n < calls.count c →
      (c = .makeDirectory → calls.getLast? = some c) → Raised plan host settings dir b t calls c n
  /-- The owner or the group could not be changed. -/
  | unknown {e : Failure} {n : Nat} : host.changeOwner settings.owner settings.group = .error e →
      e.IsRefusal → calls.getLast? = some .setOwner → calls.count .setOwner = n + 1 →
      Raised plan host settings dir b t calls .setOwner n
  /-- The run ended at it, although other calls follow where it is granted. -/
  | ended {c : Call} {n : Nat} : c ∈ [Call.makeDirectory, .createTemporary, .rename, .openMarker] →
      calls.getLast? = some c → calls.count c = n + 1 → Raised plan host settings dir b t calls c n
  /-- A target could not be read. -/
  | unreadable {text : Target → Text} {target : Target} {n : Nat} :
      Contents.texts b settings.serverName host.name = .ok text →
      ¬ Readable t (dir.child target.fileName) → Raised plan host settings dir b t calls .read n

variable {t : FileTree} {calls : List Call} {c : Call} {n : Nat} {r : Except Failure Outcome}

theorem Raised.mem (h : Raised plan host settings dir b t calls c n) : c = .read ∨ c ∈ calls := by
  cases h with
  | planned _ hn _ => exact .inr (List.count_pos_iff.1 (by omega))
  | unknown _ _ hlast _ => exact .inr (List.mem_of_getLast? hlast)
  | ended _ hlast _ => exact .inr (List.mem_of_getLast? hlast)
  | unreadable _ _ => exact .inl rfl

theorem Raised.ne_createTemporary (h : Raised plan host settings dir b t calls c n)
    (hnot : Call.createTemporary ∉ calls) : c ≠ .createTemporary := by
  rintro rfl
  rcases h.mem with hc | hc
  · exact absurd hc (by simp)
  · exact hnot hc

/-- A run without a text for its files makes no call. -/
theorem Raised.not_of_no_text {f : Fault}
    (htext : Contents.texts b settings.serverName host.name = .error f) :
    ¬ Raised plan host settings dir b t [] c n := by
  intro h
  cases h with
  | planned _ hn _ => exact absurd hn (by simp)
  | unknown _ _ hlast _ => exact absurd hlast (by simp)
  | ended _ hlast _ => exact absurd hlast (by simp)
  | unreadable htext' _ => exact absurd (htext.symm.trans htext') (by simp)

/-- Where no call was refused, none was raised. -/
theorem Raised.not_of_unrefused
    (hreadable : ∀ target : Target, Readable t (dir.child target.fileName))
    (hlast : (∀ c ∈ calls, c = .read) ∨ EndsAtValue host settings calls)
    (hun : ∀ c n, c ≠ .makeDirectory → n < calls.count c → plan c n = none) :
    ¬ Raised plan host settings dir b t calls c n := by
  have hends : ∀ c ∈ [Call.makeDirectory, .createTemporary, .rename, .openMarker],
      calls.getLast? ≠ some c := by
    intro c hc hcalls
    rcases hlast with hreads | h | h | ⟨h, -⟩
    · obtain rfl := hreads c (List.mem_of_getLast? hcalls)
      exact absurd hc (by decide)
    all_goals
      obtain rfl := Option.some.inj (hcalls.symm.trans h)
      exact absurd hc (by decide)
  intro h
  cases h with
  | planned hsome hn hforgiven =>
    by_cases hc : c = .makeDirectory
    · exact hends c (by simp [hc]) (hforgiven hc)
    · rw [hun c n hc hn] at hsome
      exact absurd hsome (by simp)
  | unknown hchange href hcalls _ =>
    rcases hlast with hreads | h | h | ⟨-, f, hf⟩
    · exact absurd (hreads _ (List.mem_of_getLast? hcalls)) (by simp)
    · exact absurd (hcalls.symm.trans h) (by simp)
    · exact absurd (hcalls.symm.trans h) (by simp)
    · rw [Except.error.inj (hchange.symm.trans hf)] at href
      exact href
  | ended hc hcalls _ => exact hends c hc hcalls
  | unreadable _ hnot => exact hnot (hreadable _)

/-- A run that ended at its first temporary file was refused there. -/
theorem Raised.first_of_nothingStaged
    (hreadable : ∀ target : Target, Readable t (dir.child target.fileName))
    {reads cs : List Call} (hreads : ∀ c ∈ reads, c = .read) (hmakes : ∀ c ∈ cs, c = .makeDirectory)
    (hun : ∀ n, n < reads.count .read → plan .read n = none)
    (h : Raised plan host settings dir b t (reads ++ cs ++ [.createTemporary]) c n) :
    c = .createTemporary ∧ n = 0 := by
  have hcount : (reads ++ cs).count .createTemporary = 0 := by
    refine List.count_eq_zero.2 fun hmem => ?_
    rcases List.mem_append.1 hmem with hmem | hmem
    · exact absurd (hreads _ hmem) (by simp)
    · exact absurd (hmakes _ hmem) (by simp)
  have hfirst : ∀ n, n < (reads ++ cs ++ [Call.createTemporary]).count .createTemporary →
      n = 0 := by
    intro n hn
    rw [List.count_append, hcount, List.count_singleton_self] at hn
    omega
  cases h with
  | planned hsome hn hforgiven =>
    have hmem : c ∈ reads ++ cs ++ [.createTemporary] := List.count_pos_iff.1 (by omega)
    rcases List.mem_append.1 hmem with hmem | hmem
    · rcases List.mem_append.1 hmem with hmem | hmem
      · obtain rfl := hreads c hmem
        have hnone : cs.count .read = 0 :=
          List.count_eq_zero.2 fun h => absurd (hmakes _ h) (by simp)
        rw [List.count_append, List.count_append, hnone] at hn
        rw [hun n (by simpa using hn)] at hsome
        exact absurd hsome (by simp)
      · obtain rfl := hmakes c hmem
        exact absurd (hforgiven rfl) (by simp)
    · obtain rfl := List.mem_singleton.1 hmem
      exact ⟨rfl, hfirst n hn⟩
  | unknown _ _ hlast _ => exact absurd hlast (by simp)
  | ended _ hlast hlen =>
    obtain rfl : Call.createTemporary = c := by simpa using hlast
    exact ⟨rfl, hfirst n (by omega)⟩
  | unreadable _ hnot => exact absurd (hreadable _) hnot

/-- A run that began to write its first temporary file was not refused it. -/
theorem Raised.later_of_begun {cs cs' : List Call}
    (hnone : plan .createTemporary 0 = none)
    (h : Raised plan host settings dir b t (cs ++ .createTemporary :: .write :: cs') c n) :
    ¬ (c = .createTemporary ∧ n = 0) := by
  rintro ⟨rfl, rfl⟩
  cases h with
  | planned hsome _ _ =>
    rw [hnone] at hsome
    exact absurd hsome (by simp)
  | ended _ hlast hlen =>
    have hagain : Call.createTemporary ∈ cs' := by
      have hmem : Call.createTemporary ∈ Call.write :: cs' := List.mem_of_getLast? (by
        simpa [List.getLast?_append, List.getLast?_cons_cons] using hlast)
      simpa using hmem
    have hpos := List.count_pos_iff.2 hagain
    rw [List.count_append, List.count_cons_self, List.count_cons] at hlen
    omega

/-- The outcome tells of a failure. -/
def Reported (r : Except Failure Outcome) : Prop :=
  ∃ o, r = .ok o ∧ o.success = false ∧ o.message ≠ []

/-- The two ways in which a run with a refused call ends. -/
def EndsRefused (c : Call) (n : Nat) (r : Except Failure Outcome) : Prop :=
  (Reported r ∧ ¬ (c = .createTemporary ∧ n = 0)) ∨
    (r = .error (.fault .nothingStaged) ∧ c = .createTemporary ∧ n = 0)

/-- Writing after reads of which none was refused. -/
theorem endsRefused_of_applied {s₁ s₂ : Session} {r₁ : Except Failure Outcome}
    (hreadable : ∀ target : Target, Readable t (dir.child target.fileName))
    (hreads : ∀ c ∈ s₁.calls, c = .read)
    (hun : ∀ c n, n < s₁.calls.count c → plan c n = none)
    (happ : Applied plan host settings s₁ r₁ s₂)
    (hraised : Raised plan host settings dir b t s₂.calls c n) :
    EndsRefused c n (settled r₁) := by
  have hnot : ∀ {c : Call}, c ≠ .read → s₁.calls.count c = 0 := fun hc =>
    List.count_eq_zero.2 fun hmem => hc (hreads _ hmem)
  cases happ with
  | noDirectory hm hasks =>
    refine .inl ⟨⟨_, rfl, rfl, hm⟩, fun hc => hraised.ne_createTemporary (fun hmem => ?_) hc.1⟩
    rcases hasks.mem hmem with hc | hc
    · exact absurd (hreads _ hc) (by simp)
    · exact absurd hc (by decide)
  | nothingStaged hmakes hcs =>
    rw [hcs] at hraised
    exact .inr ⟨rfl, hraised.first_of_nothingStaged hreadable hreads hmakes (hun .read)⟩
  | told hm hnone hcs =>
    rw [hnot (by decide)] at hnone
    rw [hcs] at hraised
    exact .inl ⟨⟨_, rfl, rfl, hm⟩, hraised.later_of_begun hnone⟩
  | unrefused _ hend hlater =>
    refine absurd hraised (Raised.not_of_unrefused hreadable ?_ fun c n hc hn => ?_)
    · rcases hend with hsame | hvalue
      · rw [hsame]
        exact .inl hreads
      · exact .inr hvalue
    · rcases Nat.lt_or_ge n (s₁.calls.count c) with hlt | hge
      · exact hun c n hlt
      · exact hlater c n hc hge hn

theorem endsRefused_of_run (hplan : plan.Refuses)
    (hhost : ∀ m, host.changeOwner settings.owner settings.group ≠ .error (.reported m))
    {server : Entries} (hserver : settings.passthrough = .ok server)
    (hdir : settings.confDir = .path dir) {dryRun : Bool}
    (h : run plan host settings b dryRun { tree := t } = (r, s'))
    (hraised : Raised plan host settings dir b t s'.calls c n) : EndsRefused c n r := by
  rcases run_cases hdir h with ⟨rfl, f, htext, -⟩ | ⟨text, -, hrun⟩
  · exact absurd hraised (Raised.not_of_no_text htext)
  obtain ⟨x, s₁, hx, hends⟩ := runIn_ends hrun
  obtain ⟨-, hstaged, hreads⟩ := reads_found hx
  rcases found_ends hplan hx with ⟨o, rfl, hfails, hm⟩ | ⟨targets, rfl, hreadable, hun⟩
  · obtain ⟨o', ho, rfl, rfl⟩ : ∃ o', o = o' ∧ r = .ok o' ∧ s' = s₁ := by simpa using hends
    refine .inl ⟨⟨_, rfl, ho ▸ hfails, ho ▸ hm⟩, fun hc => ?_⟩
    exact hraised.ne_createTemporary (fun hmem => absurd (hreads _ hmem) (by simp)) hc.1
  have honly : ∀ c n, n < s₁.calls.count c → plan c n = none := fun c n hn =>
    hun c n (by simp) hn
  rcases hends with ⟨e, he, -⟩ | ⟨o, ho, -⟩ | ⟨targets', -, hends⟩
  · exact absurd he (by simp)
  · exact absurd ho (by simp)
  rcases hends with ⟨-, rfl, -⟩ | ⟨-, hne, r₁, s₂, happ, -, hcalls, rfl⟩
  · exact absurd hraised (Raised.not_of_unrefused hreadable (.inl hreads) fun c n _ => honly c n)
  · exact endsRefused_of_applied hreadable hreads honly
      (apply_ends hplan hhost hserver hstaged hne happ) (hcalls ▸ hraised)

/-- Every refusal is reported, but where the first temporary file cannot be made. -/
theorem reported_iff (hplan : plan.Refuses)
    (hhost : ∀ m, host.changeOwner settings.owner settings.group ≠ .error (.reported m))
    {server : Entries} (hserver : settings.passthrough = .ok server)
    (hdir : settings.confDir = .path dir) {dryRun : Bool}
    (h : run plan host settings b dryRun { tree := t } = (r, s'))
    (hraised : Raised plan host settings dir b t s'.calls c n) :
    (Reported r ↔ ¬ (c = .createTemporary ∧ n = 0)) ∧
      (Reported r ∨ r = .error (.fault .nothingStaged)) := by
  rcases endsRefused_of_run hplan hhost hserver hdir h hraised with ⟨hr, hc⟩ | ⟨hr, hc⟩
  · exact ⟨by simp only [hr, hc, not_false_eq_true], .inl hr⟩
  · refine ⟨iff_of_false ?_ (not_not.2 hc), .inr hr⟩
    rintro ⟨o, ho, -⟩
    exact absurd (hr.symm.trans ho) (by simp)

/-- A host that lets anyone own a file. -/
def lenientHost : Host where
  name := "host.test"
  timestamp := "T"
  changeOwner _ _ := .ok ()

def plainSettings : Settings where
  confDir := .path (.ofText "/auth.d")

/-- A deployment to an empty tree that is refused the temporary file with this index. -/
def refusedTemporary (index : Nat) : Except Failure Outcome × Session :=
  run (.single .createTemporary index (.system "x")) lenientHost plainSettings ⟨[], []⟩ false
    { tree := .empty }

theorem reported_refusedTemporary :
    Raised (.single .createTemporary 1 (.system "x")) lenientHost plainSettings
        (.ofText "/auth.d") ⟨[], []⟩ .empty (refusedTemporary 1).2.calls .createTemporary 1 ∧
      Reported (refusedTemporary 1).1 := by
  have hraised : Raised (.single .createTemporary 1 (.system "x")) lenientHost plainSettings
      (.ofText "/auth.d") ⟨[], []⟩ .empty (refusedTemporary 1).2.calls .createTemporary 1 :=
    .planned (by decide) (by decide +kernel) (by simp)
  exact ⟨hraised, (reported_iff (FaultPlan.refuses_single (by decide) _ _) (by simp [lenientHost])
    rfl rfl (Prod.eta (refusedTemporary 1)).symm hraised).1.2 (by simp)⟩

/-- Where the first temporary file is refused, no outcome tells of it. -/
theorem nothing_staged :
    Raised (.single .createTemporary 0 (.system "x")) lenientHost plainSettings
        (.ofText "/auth.d") ⟨[], []⟩ .empty (refusedTemporary 0).2.calls .createTemporary 0 ∧
      (refusedTemporary 0).1 = .error (.fault .nothingStaged) ∧
      ¬ Reported (refusedTemporary 0).1 := by
  have hr : (refusedTemporary 0).1 = .error (.fault .nothingStaged) := by rfl
  refine ⟨.planned (by decide) (by decide +kernel) (by simp), hr, ?_⟩
  rintro ⟨o, ho, -⟩
  exact absurd (hr.symm.trans ho) (by simp)

end AccessPolicy.Deployment
