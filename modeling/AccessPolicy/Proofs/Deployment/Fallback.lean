import AccessPolicy.Proofs.Deployment.DryRun
import AccessPolicy.Proofs.Deployment.Installed
import AccessPolicy.Proofs.Directive.Authentication
import AccessPolicy.Proofs.Directive.Limit

/-!
# The fallback

An empty block is the only sign by which the compiler tells the renderer, the report and the
marker that a policy says nothing. The limit block of an accepted policy is empty if and only if
the policy names nobody (`Policy.limits_eq_nil_iff`), and the authentication block if and only
if it enables no method (`Policy.auth_eq_nil_iff`). A run that succeeds reports both, and its
marker says the same (`Deployment.Announces`).

Whichever block the limits file holds, it closes what it does not open : read back, it has
sections with operations and requirements, and denies every operation that no section lists
(`Directive.Reading.Guards`, `Deployment.guards_of_isBody`).

`Deployment.fallback_iff_namesNobody` puts these together.
-/

namespace AccessPolicy

/-! ## Policies that name nobody -/

namespace Validation

/-- Each class of principals is missing, null or an empty mapping. -/
def NamesNobody (limits : Entries) : Prop :=
  ∀ c : PrincipalClass, limits.get? c.name = none ∨ limits.get? c.name = some .null ∨
    ∃ d, limits.get? c.name = some d ∧ d.entries? = some []

/-- No method has a true `enabled`. -/
def EnablesNone (methods : Entries) : Prop :=
  ∀ kind : MethodKind, (configOf methods kind).get? "enabled" ≠ some (.bool true)

theorem AcceptedLimits.principalsOf_eq_nil_iff {limits : Entries} (h : AcceptedLimits limits)
    (c : PrincipalClass) : principalsOf limits c = [] ↔ limits.get? c.name = none ∨
      limits.get? c.name = some .null ∨
        ∃ d, limits.get? c.name = some d ∧ d.entries? = some [] := by
  have hshape := h.shapes c
  unfold principalsOf
  unfold Entries.getD at hshape ⊢
  cases hd : limits.get? c.name with
  | none => exact iff_of_true rfl (.inl rfl)
  | some d =>
    rw [hd, Option.getD_some] at hshape
    rw [Option.getD_some]
    rcases hshape with rfl | hmapping
    · exact iff_of_true rfl (.inr (.inl rfl))
    · obtain ⟨es, hes⟩ := Option.isSome_iff_exists.1 hmapping
      have hnull : d ≠ .null := by
        rintro rfl
        cases hes
      simp [Document.entries, hes, hnull]

theorem AcceptedLimits.grantsOf_eq_nil_iff {limits : Entries} (h : AcceptedLimits limits) :
    grantsOf limits = [] ↔ NamesNobody limits := by
  rw [grantsOf, List.flatMap_eq_nil_iff]
  refine ⟨fun hall c => ?_, fun hnobody c _ => ?_⟩
  · have hc := hall c (PrincipalClass.mem_all c)
    exact (h.principalsOf_eq_nil_iff c).1 (List.map_eq_nil_iff.1 hc)
  · exact List.map_eq_nil_iff.2 ((h.principalsOf_eq_nil_iff c).2 (hnobody c))

theorem enablesNone_iff {methods : Entries} : EnablesNone methods ↔
    isEnabled methods .file = false ∧ isEnabled methods .ldap = false := by
  have hkind : ∀ kind, (configOf methods kind).get? "enabled" ≠ some (.bool true) ↔
      isEnabled methods kind = false := fun kind => by
    rw [Bool.eq_false_iff, ne_eq, ne_eq, isEnabled_iff_get?]
  refine ⟨fun h => ⟨(hkind .file).1 (h .file), (hkind .ldap).1 (h .ldap)⟩, fun h kind => ?_⟩
  cases kind with
  | file => exact (hkind .file).2 h.1
  | ldap => exact (hkind .ldap).2 h.2

end Validation

/-! ## Empty blocks -/

theorem Text.ofLines_eq_nil_iff {lines : List Text} : Text.ofLines lines = [] ↔ lines = [] := by
  cases lines with
  | nil => exact iff_of_true rfl rfl
  | cons line lines => simp [Text.ofLines]

/-- There are directives exactly where a method is enabled. -/
theorem Directive.Authentication.lines_ofMethods_eq_nil_iff {methods : Entries}
    {realm : Document} :
    (ofMethods methods realm).lines = [] ↔ Validation.EnablesNone methods := by
  rw [lines_eq_nil_iff, Validation.enablesNone_iff, ofMethods]
  simp

namespace Policy

variable {override defaults realm : Document} {b : Blocks}

/-- The limit block is empty exactly where nobody is named. -/
theorem limits_eq_nil_iff (ho : override.DistinctKeys) (hd : defaults.DistinctKeys)
    (h : compile override defaults realm = .ok b) :
    b.limits = [] ↔ Validation.NamesNobody (limitEntries override defaults) := by
  obtain ⟨hvalid, hlimits⟩ := limitBlock_of_compile ho hd h
  have haccepted : Validation.AcceptedLimits (limitEntries override defaults) :=
    (Validation.accepted_of_validate hvalid).limits
  obtain ⟨gs, -, -, hblock⟩ := Directive.exists_limitBlock haccepted
  rw [hblock, Except.ok.injEq] at hlimits
  rw [← hlimits, ← haccepted.grantsOf_eq_nil_iff]
  split_ifs with hnil
  · exact iff_of_true rfl hnil
  · refine iff_of_false (mt Text.ofLines_eq_nil_iff.1 ?_) hnil
    simp [Directive.limitLines, Directive.exceptSection]

/-- The authentication block is empty exactly where no method is enabled. -/
theorem auth_eq_nil_iff (ho : override.DistinctKeys) (hd : defaults.IsBase)
    (h : compile override defaults realm = .ok b) :
    b.auth = [] ↔ Validation.EnablesNone ((merged override defaults).sectionEntries "methods") := by
  rw [auth_of_compile ho hd h, Text.ofLines_eq_nil_iff, authentication,
    Directive.Authentication.lines_ofMethods_eq_nil_iff]

end Policy

/-! ## Blocks that close what they do not open -/

namespace Directive

/-- What is read opens some operations to somebody, each section with requirements of its own,
and denies all operations but those of its sections. -/
structure Reading.Guards (r : Reading) : Prop where
  nonempty : r.sections ≠ []
  sections : ∀ s ∈ r.sections, s.operations ≠ [] ∧ s.requirements ≠ [] ∧
    ∀ line ∈ s.requirements, ∃ rest, line = "Require " ++ rest
  excepted : ∀ op, op ∈ r.excepted ↔ ∃ s ∈ r.sections, op ∈ s.operations

theorem exists_requireLine (c : PrincipalClass) (name : Text) :
    ∃ rest, requireLine c name = "Require " ++ rest := by
  cases c with
  | hosts => exact ⟨"ip " ++ name, rfl⟩
  | users =>
    unfold requireLine
    split_ifs
    · exact ⟨"valid-user", rfl⟩
    · exact ⟨"user " ++ name, rfl⟩
  | ldapGroups => exact ⟨"ldap-group " ++ name, rfl⟩

/-- Groups of somebody with known operations guard. -/
theorem guards_of_groups {gs : List Group} (hne : gs ≠ []) (hknown : ∀ g ∈ gs, Group.IsKnown g)
    (hprincipals : ∀ g ∈ gs, g.principals ≠ []) :
    Reading.Guards ⟨gs.map sectionOf, Operations.canonical (granted gs)⟩ where
  nonempty := by simpa using hne
  sections := by
    intro s hs
    obtain ⟨g, hg, rfl⟩ := List.mem_map.1 hs
    refine ⟨(hknown g hg).1, by simpa [sectionOf] using hprincipals g hg, fun line hline => ?_⟩
    obtain ⟨p, -, rfl⟩ := List.mem_map.1 hline
    exact exists_requireLine p.kind p.name
  excepted := by
    intro op
    rw [Operations.mem_canonical, granted, List.mem_flatMap]
    constructor
    · rintro ⟨-, g, hg, hop⟩
      exact ⟨sectionOf g, List.mem_map_of_mem hg, hop⟩
    · rintro ⟨s, hs, hop⟩
      obtain ⟨g, hg, rfl⟩ := List.mem_map.1 hs
      exact ⟨(hknown g hg).2 op hop, g, hg, hop⟩

theorem not_mem_limitSection {ops requirements : List Text} (hops : ∀ op ∈ ops, op ∈ operations)
    (h : ∀ line ∈ requirements, CodePoint.char '\n' ∉ line) :
    ∀ line ∈ limitSection ops requirements, CodePoint.char '\n' ∉ line := by
  have hwords : CodePoint.char '\n' ∉ Text.joined " " ops :=
    Text.not_mem_joined (by decide) fun op hop => (not_mem_operation op (hops op hop)).2
  have hopening : CodePoint.char '\n' ∉ ("<Limit " : Text) ++ Text.joined " " ops ++ ">" := by
    simp only [List.mem_append, not_or]
    exact ⟨⟨by decide, hwords⟩, by decide⟩
  have hrequirements : ∀ line ∈ requirements.map fun line => indent ++ indent ++ line,
      CodePoint.char '\n' ∉ line := by
    intro line hline
    obtain ⟨requirement, hmem, rfl⟩ := List.mem_map.1 hline
    rw [List.mem_append, not_or]
    exact ⟨by decide, h requirement hmem⟩
  refine List.forall_mem_append.2 ⟨List.forall_mem_append.2 ⟨?_, hrequirements⟩, by decide⟩
  exact List.forall_mem_cons.2 ⟨hopening, by decide⟩

theorem not_mem_exceptSection (names : List Text) :
    ∀ line ∈ exceptSection names, CodePoint.char '\n' ∉ line := by
  intro line hline
  have hsum := List.sum_eq_zero_iff_forall_eq_nat.1 (sum_count_exceptSection names)
  exact List.count_eq_zero.1 (hsum _ (List.mem_map_of_mem hline))

/-- Whom the fallback admits : somebody, on lines of their own. -/
theorem requirements_of_fallback {name : Document} {requirements : List Text}
    (h : Contents.fallbackRequirements name = .ok requirements) :
    requirements ≠ [] ∧ (∀ line ∈ requirements, ∃ rest, line = "Require " ++ rest) ∧
      (CodePoint.char '\n' ∉ name.shown → ∀ line ∈ requirements, CodePoint.char '\n' ∉ line) := by
  have hloopback : ∃ rest : Text, ("Require ip " : Text) ++
      Text.joined " " Contents.loopbackAddresses = "Require " ++ rest ∧
        CodePoint.char '\n' ∉ ("Require " : Text) ++ rest :=
    ⟨"ip 127.0.0.1 ::1", by decide, by decide⟩
  obtain ⟨rest, hrest, hfeed⟩ := hloopback
  unfold Contents.fallbackRequirements at h
  dsimp only at h
  rw [hrest] at h
  split_ifs at h with hgiven
  · obtain ⟨shown, hshown, h⟩ := bind_eq_ok h
    obtain rfl := Except.ok.inj h
    obtain rfl : name.shown = shown := by
      unfold Document.shownText at hshown
      split_ifs at hshown
      exact Except.ok.inj hshown
    refine ⟨by simp, List.forall_mem_cons.2 ⟨⟨rest, rfl⟩,
      List.forall_mem_singleton.2 ⟨"host " ++ name.shown, rfl⟩⟩, fun hname => ?_⟩
    refine List.forall_mem_cons.2 ⟨hfeed, List.forall_mem_singleton.2 ?_⟩
    rw [List.mem_append, not_or]
    exact ⟨by decide, hname⟩
  · obtain rfl := Except.ok.inj h
    exact ⟨by simp, List.forall_mem_singleton.2 ⟨rest, rfl⟩,
      fun _ => List.forall_mem_singleton.2 hfeed⟩

/-- The fallback guards, if the name that it admits has no line feed. -/
theorem guards_of_fallback {serverName : Document} {hostName block : Text}
    (h : Contents.fallbackBlock serverName hostName = .ok block)
    (hname : CodePoint.char '\n' ∉ (serverName.orText hostName).shown) :
    ∃ r, read block = some r ∧ r.Guards := by
  obtain ⟨requirements, hrequirements, h⟩ := bind_eq_ok h
  obtain rfl := Except.ok.inj h
  obtain ⟨hne, hwords, hfeeds⟩ := requirements_of_fallback hrequirements
  have hoperations : Contents.fallbackOperations ≠ [] ∧
      (∀ op ∈ Contents.fallbackOperations, CodePoint.char ' ' ∉ op) ∧
      Operations.canonical Contents.fallbackOperations = Contents.fallbackOperations := by
    decide
  obtain ⟨hnonempty, hblanks, hcanonical⟩ := hoperations
  have hlines : ∀ line ∈ limitSection Contents.fallbackOperations requirements ++
      exceptSection Contents.fallbackOperations, CodePoint.char '\n' ∉ line :=
    List.forall_mem_append.2 ⟨not_mem_limitSection (by decide) (hfeeds hname),
      not_mem_exceptSection _⟩
  refine ⟨⟨[⟨Contents.fallbackOperations, requirements⟩], Contents.fallbackOperations⟩,
    read_ofLines hlines ?_,
    ⟨by simp, List.forall_mem_singleton.2 ⟨hnonempty, hne, hwords⟩, by simp⟩⟩
  rw [List.foldlM_append, foldlM_limitSection hnonempty hblanks]
  refine (foldlM_exceptSection (by rwa [hcanonical]) (by rwa [hcanonical])).trans ?_
  rw [hcanonical]
  rfl

/-- The block of a policy that names somebody guards, if no host has a line feed in its name. -/
theorem guards_of_compile {override defaults realm : Document} {b : Blocks}
    (ho : override.DistinctKeys) (hd : defaults.DistinctKeys)
    (hb : Policy.compile override defaults realm = .ok b) (hne : b.limits ≠ [])
    (hhosts : ∀ e ∈ Validation.principalsOf (Policy.limitEntries override defaults) .hosts,
      CodePoint.char '\n' ∉ e.1.shown) :
    ∃ r, read b.limits = some r ∧ r.Guards := by
  obtain ⟨hvalid, hlimits⟩ := Policy.limitBlock_of_compile ho hd hb
  have haccepted : Validation.AcceptedLimits (Policy.limitEntries override defaults) :=
    (Validation.accepted_of_validate hvalid).limits
  obtain ⟨gs, hgrouping, hknown, hblock⟩ := exists_limitBlock haccepted
  rw [hblock, Except.ok.injEq] at hlimits
  split_ifs at hlimits with hnil
  · exact absurd hlimits.symm hne
  · have hgs : gs ≠ [] := fun he => hnil (List.map_eq_nil_iff.1 (hgrouping.eq_nil_iff.1 he))
    have hfeeds : feeds (gs.flatMap Group.principals) = 0 :=
      (feeds_perm (perm_principals hgrouping)).trans (feeds_eq_zero haccepted hhosts)
    rw [← hlimits, read_limitLines hgs hknown hfeeds]
    exact ⟨_, rfl, guards_of_groups hgs hknown hgrouping.ne_nil⟩

end Directive

/-! ## Files, reports and markers -/

namespace Deployment

variable {plan : FaultPlan} {host : Host} {settings : Settings} {dir : Path} {b : Blocks}
  {serverName : Document} {hostName : Text} {text : Target → Text} {dryRun : Bool} {t : FileTree}
  {o : Outcome} {s' : Session}

/-- Comment lines, and then a block that guards. -/
def GuardsFile (x : Text) : Prop :=
  ∃ comments block r, x = Text.ofLines comments ++ block ∧
    (∀ line ∈ comments, line.head? = some (.char '#') ∧ CodePoint.char '\n' ∉ line) ∧
    Directive.read block = some r ∧ r.Guards

/-- The report says which blocks are empty, and so does the marker if there is one. -/
structure Announces (settings : Settings) (b : Blocks) (o : Outcome) (s' : Session) : Prop where
  usedFallback : o.usedFallback = b.limits.isEmpty
  authWritten : o.authWritten = !b.auth.isEmpty
  marked : .openMarker ∈ s'.calls → ∃ dir targets, settings.confDir = .path dir ∧
    Marked b dir targets s'

/-- Only the name in the fallback may have no text. -/
theorem exists_texts_iff : (∃ text, Contents.texts b serverName hostName = .ok text) ↔
    (b.limits = [] → (serverName.orText hostName).isGiven = true →
      (serverName.orText hostName).isShowable = true) := by
  rw [Contents.texts]
  by_cases hempty : b.limits = []
  · rw [if_pos (List.isEmpty_iff.2 hempty), Contents.fallbackBlock, Contents.fallbackRequirements]
    simp only [hempty, forall_const]
    by_cases hgiven : (serverName.orText hostName).isGiven = true
    · rw [if_pos hgiven, Document.shownText]
      by_cases hshow : (serverName.orText hostName).isShowable = true
      · rw [if_pos hshow]
        exact iff_of_true ⟨_, rfl⟩ fun _ => hshow
      · rw [if_neg hshow]
        exact iff_of_false (fun h => nomatch h.choose_spec) fun h => hshow (h hgiven)
    · rw [if_neg hgiven]
      exact iff_of_true ⟨_, rfl⟩ fun h => absurd h hgiven
  · rw [if_neg (mt List.isEmpty_iff.1 hempty)]
    exact iff_of_true ⟨_, rfl⟩ fun h => absurd h hempty

/-- The lines in front of the fallback. -/
def commentLines : List Text :=
  ["# Generated by httpd-policy. Do not edit.", "# Fallback: no principals in policy."]

/-- The limits file guards, whichever block it holds. -/
theorem guardsFile_of_isBody {body : Text} (hbody : IsBody serverName hostName b .limits body)
    (hname : CodePoint.char '\n' ∉ (serverName.orText hostName).shown)
    (hblock : b.limits ≠ [] → ∃ r, Directive.read b.limits = some r ∧ r.Guards) :
    GuardsFile (Contents.header ++ body) := by
  have hheader : Contents.header = Text.ofLines (commentLines.take 1) := by decide +kernel
  have hboth : Contents.header ++ Contents.fallbackComment = Text.ofLines commentLines := by
    decide +kernel
  cases hbody with
  | limits hne =>
    obtain ⟨r, hr, hguards⟩ := hblock hne
    exact ⟨commentLines.take 1, b.limits, r, by rw [hheader], by decide +kernel, hr, hguards⟩
  | fallback _ hfallback =>
    obtain ⟨r, hr, hguards⟩ := Directive.guards_of_fallback hfallback hname
    exact ⟨commentLines, _, r, by rw [← hboth, List.append_assoc], by decide +kernel, hr, hguards⟩

/-- What a run reports that succeeds. -/
theorem exists_outcome_of_success (hdir : settings.confDir = .path dir)
    (h : run plan host settings b dryRun { tree := t } = (.ok o, s')) (ho : o.success = true) :
    ∃ targets message, o = outcome dir b dryRun targets message := by
  rcases run_cases hdir h with ⟨-, f, -, hf⟩ | ⟨text, -, hrun⟩
  · exact absurd hf (by simp)
  obtain ⟨x, s₁, hx⟩ : ∃ x s₁, findChanged plan dir text Target.all { tree := t } = (x, s₁) :=
    ⟨_, _, rfl⟩
  cases x with
  | ok targets =>
    cases dryRun with
    | true =>
      rw [dryRun_of_findChanged hx] at hrun
      exact ⟨_, _, (Except.ok.inj (Prod.mk.inj hrun).1).symm⟩
    | false =>
      obtain ⟨message, rfl⟩ := eq_outcome_of_success hx hrun ho
      exact ⟨_, _, rfl⟩
  | error e =>
    by_cases he : ∃ m, e = .reported m
    · obtain ⟨m, rfl⟩ := he
      rw [runIn_of_reported hx] at hrun
      rw [← Except.ok.inj (Prod.mk.inj hrun).1] at ho
      exact absurd ho (by simp)
    · rw [runIn_of_error hx fun m hm => he ⟨m, hm⟩] at hrun
      exact absurd (Prod.mk.inj hrun).1 (by simp)

theorem announces_of_success
    (h : run plan host settings b dryRun { tree := t } = (.ok o, s')) (ho : o.success = true) :
    Announces settings b o s' := by
  rcases run_starts host settings b with ⟨dir, text, hdir, -, -⟩ | ⟨f, hfault⟩
  swap
  · rw [hfault plan host dryRun _ rfl] at h
    cases h
  obtain ⟨targets, message, rfl⟩ := exists_outcome_of_success hdir h ho
  refine ⟨rfl, rfl, fun hmarker => ?_⟩
  cases dryRun with
  | true =>
    rcases run_cases hdir h with ⟨-, f, -, hf⟩ | ⟨text, -, hrun⟩
    · exact absurd hf (by simp)
    · rcases runIn_cases hrun with hreads | ⟨hfalse, -⟩
      · exact absurd (hreads.calls _ hmarker) (by simp)
      · cases hfalse
  | false =>
    obtain ⟨text, -, -, -, hsucceeded⟩ := success_cases hdir h ho
    cases hsucceeded with
    | unchanged _ _ hreads => exact absurd (hreads _ hmarker) (by simp)
    | deployed _ _ _ _ hmarked => exact ⟨dir, _, hdir, hmarked⟩

/-- The limit block is empty exactly where nobody is named, and the authentication block exactly
where no method is enabled. The limits file has the fallback in the first case and the block
otherwise, a run that succeeds reports both, as its marker does, and whichever block the file
has, it guards if no name in it has a line feed. -/
theorem fallback_iff_namesNobody {override defaults realm : Document}
    (ho : override.DistinctKeys) (hd : defaults.IsBase)
    (hb : Policy.compile override defaults realm = .ok b) :
    (b.limits = [] ↔ Validation.NamesNobody (Policy.limitEntries override defaults)) ∧
    (b.auth = [] ↔
      Validation.EnablesNone ((Policy.merged override defaults).sectionEntries "methods")) ∧
    (∀ serverName hostName,
      ((∃ text, Contents.texts b serverName hostName = .ok text) ↔
        (b.limits = [] → (serverName.orText hostName).isGiven = true →
          (serverName.orText hostName).isShowable = true)) ∧
      ∀ text, Contents.texts b serverName hostName = .ok text →
        (∃ body, IsBody serverName hostName b .limits body ∧
          text .limits = Contents.header ++ body) ∧
        (CodePoint.char '\n' ∉ (serverName.orText hostName).shown →
          (∀ e ∈ Validation.principalsOf (Policy.limitEntries override defaults) .hosts,
            CodePoint.char '\n' ∉ e.1.shown) → GuardsFile (text .limits))) ∧
    ∀ plan host settings dryRun t o s',
      run plan host settings b dryRun { tree := t } = (.ok o, s') → o.success = true →
        Announces settings b o s' := by
  refine ⟨Policy.limits_eq_nil_iff ho hd.distinctKeys hb,
    Policy.auth_eq_nil_iff ho hd hb,
    fun serverName hostName => ⟨exists_texts_iff, fun text htext => ?_⟩,
    fun _ _ _ _ _ _ _ h => announces_of_success h⟩
  obtain ⟨body, hbody, htext⟩ := exists_isBody htext .limits
  refine ⟨⟨body, hbody, htext⟩, fun hname hhosts => ?_⟩
  rw [htext]
  exact guardsFile_of_isBody hbody hname fun hne =>
    Directive.guards_of_compile ho hd.distinctKeys hb hne hhosts

/-- Takes the only host out of the default policy. -/
def nobodyOverride : Document :=
  .mapping (namedEntries [("limits", .mapping (namedEntries [("hosts", .null)]))])

theorem distinctKeys_nobodyOverride : nobodyOverride.DistinctKeys := by
  refine distinctKeys_namedEntries (by decide) (List.forall_mem_singleton.2 ?_)
  exact distinctKeys_namedEntries (by decide) (List.forall_mem_singleton.2 (.scalar _))

theorem namesNobody_nobodyOverride :
    Validation.NamesNobody (Policy.limitEntries nobodyOverride .null) := by
  intro c
  cases c with
  | hosts => exact .inr (.inl rfl)
  | users => exact .inr (.inr ⟨_, rfl, rfl⟩)
  | ldapGroups => exact .inr (.inr ⟨_, rfl, rfl⟩)

theorem enablesNone_nobodyOverride :
    Validation.EnablesNone ((Policy.merged nobodyOverride .null).sectionEntries "methods") := by
  intro kind
  cases kind with
  | file => exact fun h => nomatch h
  | ldap => exact fun h => nomatch h

/-- A first run, with empty blocks. -/
def firstRun : Except Failure Outcome × Session :=
  run .none rootHost unownedSettings ⟨[], []⟩ false { tree := ⟨[]⟩ }

/-- A policy that names nobody and enables no method, written for the first time. -/
theorem fallback_iff_namesNobody_firstRun :
    Policy.compile nobodyOverride .null .null = .ok ⟨[], []⟩ ∧
      (∃ o, firstRun.1 = .ok o ∧ Announces unownedSettings ⟨[], []⟩ o firstRun.2) ∧
      .openMarker ∈ firstRun.2.calls ∧
      ∃ text, Contents.texts ⟨[], []⟩ unownedSettings.serverName rootHost.name = .ok text ∧
        GuardsFile (text .limits) := by
  obtain ⟨b, hb⟩ := Directive.exists_compile distinctKeys_nobodyOverride (.scalar .null)
    (Validation.validate_eq_ok_iff.2 (by decide +kernel)) (.inl rfl)
  obtain ⟨hlimits, hauth, htexts, hruns⟩ :=
    fallback_iff_namesNobody distinctKeys_nobodyOverride (Document.isBase_scalar _) hb
  have hempty : b.limits = [] := hlimits.2 namesNobody_nobodyOverride
  have hnone : b.auth = [] := hauth.2 enablesNone_nobodyOverride
  obtain ⟨auth, limits⟩ := b
  subst hempty hnone
  have hfacts : firstRun.1.toOption.map (fun o => o.success) = some true := by
    decide +kernel
  obtain ⟨o, hresult, hsuccess⟩ := exists_ok_of_map_toOption hfacts
  have hrun : run .none rootHost unownedSettings ⟨[], []⟩ false { tree := ⟨[]⟩ } =
      (.ok o, firstRun.2) := by
    rw [← hresult, firstRun]
  have hmarker : Call.openMarker ∈ firstRun.2.calls := by decide +kernel
  refine ⟨hb, ⟨o, hresult, hruns _ _ _ _ _ _ _ hrun hsuccess⟩, hmarker, ?_⟩
  obtain ⟨htext, hguards⟩ := htexts unownedSettings.serverName rootHost.name
  obtain ⟨text, htext⟩ := htext.2 fun _ _ => by decide
  refine ⟨text, htext, (hguards text htext).2 (by decide) fun e he => ?_⟩
  cases he

end Deployment

end AccessPolicy
