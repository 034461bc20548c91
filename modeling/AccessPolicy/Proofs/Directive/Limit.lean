import AccessPolicy.Proofs.Directive.Reading
import AccessPolicy.Proofs.Policy.Compiled

/-!
# What a limit block says

The limit block of an accepted document, read back line by line, says what the document
grants (`Says`) : one line for every principal, in the one section whose operations are
those that the document grants it, and at the end all operations that somebody is granted
(`compile_says`).

The reading needs host names without line feeds. The validator keeps every other name free of
control characters, but not the zone of an address of version 6. So the number of lines, and
names without control characters, stand and fall with the zones (`clean_iff`).
-/

namespace AccessPolicy.Directive

open Validation

/-! ## Lines of principals -/

/-- The directive that admits a principal. -/
def lineOf (p : Principal) : Text :=
  requireLine p.kind p.name

/-- The principal that a line admits. -/
def principalOf? (line : Text) : Option Principal :=
  match after? "Require ip " line, after? "Require ldap-group " line,
    after? "Require user " line with
  | some name, _, _ => some ⟨.hosts, name⟩
  | none, some name, _ => some ⟨.ldapGroups, name⟩
  | none, none, some name => some ⟨.users, name⟩
  | none, none, none => if line = "Require valid-user" then some ⟨.users, validUser⟩ else none

theorem principalOf?_lineOf (p : Principal) : principalOf? (lineOf p) = some p := by
  obtain ⟨kind, name⟩ := p
  cases kind with
  | hosts =>
    have h : after? "Require ip " (lineOf ⟨.hosts, name⟩) = some name := after?_append _ _
    simp only [principalOf?, h]
  | users =>
    by_cases hname : name = validUser
    · rw [hname]
      rfl
    · have hline : lineOf ⟨.users, name⟩ = "Require user " ++ name := if_neg hname
      have hip : after? "Require ip " ("Require user " ++ name) = none := rfl
      have hgroup : after? "Require ldap-group " ("Require user " ++ name) = none := rfl
      simp only [principalOf?, hline, hip, hgroup, after?_append]
  | ldapGroups =>
    have hip : after? "Require ip " (lineOf ⟨.ldapGroups, name⟩) = none := rfl
    have h : after? "Require ldap-group " (lineOf ⟨.ldapGroups, name⟩) = some name :=
      after?_append _ _
    simp only [principalOf?, hip, h]

/-- No two principals share a line. -/
theorem lineOf_injective : Function.Injective lineOf := by
  intro p q h
  exact Option.some.inj (by rw [← principalOf?_lineOf p, h, principalOf?_lineOf q])

/-! ## Sections -/

/-- A line stands in one section only, if no line stands twice in the sections. -/
theorem eq_of_mem_requirements {s t : Section} {line : Text} : ∀ {sections : List Section},
    (sections.flatMap Section.requirements).Nodup → s ∈ sections → t ∈ sections →
      line ∈ s.requirements → line ∈ t.requirements → s = t
  | u :: us, h, hs, ht, hls, hlt => by
    rw [List.flatMap_cons, List.nodup_append] at h
    obtain ⟨-, htail, hapart⟩ := h
    rcases List.mem_cons.1 hs with rfl | hs
    · rcases List.mem_cons.1 ht with rfl | ht
      · rfl
      · exact absurd rfl (hapart line hls line (List.mem_flatMap.2 ⟨t, ht, hlt⟩))
    · rcases List.mem_cons.1 ht with rfl | ht
      · exact absurd rfl (hapart line hlt line (List.mem_flatMap.2 ⟨s, ‹s ∈ us›, hls⟩))
      · exact eq_of_mem_requirements htail hs ht hls hlt

/-- The block says what the entries grant. Its sections have known operations, none of them
twice and in the order of the vocabulary, and requirements. Every entry has its line, in the one
section of its operations, so entries share a section if they are granted the same. All that is
granted to somebody is excepted from the denial. -/
structure Says (r : Reading) (es : Grants) : Prop where
  lines : (r.sections.flatMap Section.requirements).Perm (es.map fun e => lineOf e.1)
  nodup : (r.sections.flatMap Section.requirements).Nodup
  sections : ∀ s ∈ r.sections,
    s.operations ≠ [] ∧ s.operations.Nodup ∧ s.operations.Sublist operations ∧
      s.requirements ≠ []
  placed : ∀ e ∈ es, ∃ s ∈ r.sections, lineOf e.1 ∈ s.requirements ∧
    (∀ op, op ∈ s.operations ↔ op ∈ e.2) ∧
    ∀ t ∈ r.sections, lineOf e.1 ∈ t.requirements → t = s
  shared : ∀ e ∈ es, ∀ e' ∈ es,
    (∃ s ∈ r.sections, lineOf e.1 ∈ s.requirements ∧ lineOf e'.1 ∈ s.requirements) ↔
      ∀ op, op ∈ e.2 ↔ op ∈ e'.2
  excepted : r.excepted.Sublist operations ∧
    ∀ op, op ∈ r.excepted ↔ ∃ e ∈ es, op ∈ e.2

variable {limits : Entries}

/-- The principals of accepted limits are different ones. -/
theorem nodup_principals (h : AcceptedLimits limits)
    (apart : ∀ c, Key.Apart (principalsOf limits c).keys) :
    ((grantsOf limits).map (·.1)).Nodup := by
  have hmap : (grantsOf limits).map (·.1) = PrincipalClass.all.flatMap fun c =>
      ((principalsOf limits c).map fun e => e.1.shown).map (Principal.mk c) := by
    simp [grantsOf, List.map_flatMap, Function.comp_def]
  rw [hmap, List.nodup_flatMap]
  constructor
  · intro c _
    exact (h.nodup_shown c (apart c)).map fun _ _ heq => (Principal.mk.inj heq).2
  · have hall : PrincipalClass.all.Nodup := by decide
    refine hall.imp fun hne p hp hq => hne ?_
    obtain ⟨_, -, rfl⟩ := List.mem_map.1 hp
    obtain ⟨_, -, heq⟩ := List.mem_map.1 hq
    exact (Principal.mk.inj heq).1.symm

/-- The groups of accepted limits, and that they are groups of known operations. -/
theorem exists_groups (h : AcceptedLimits limits) :
    ∃ gs, (limitsOf limits).groups = .ok gs ∧
      IsGrouping gs ((grantsOf limits).map fun e => (e.1, Operations.canonical e.2)) ∧
      ∀ g ∈ gs, Group.IsKnown g := by
  have known : ∀ e ∈ (limitsOf limits).grants, e.2 ≠ [] ∧ ∀ op ∈ e.2, op ∈ operations := by
    rw [grants_limitsOf]
    intro e he
    obtain ⟨e', he', rfl⟩ := List.mem_map.1 he
    obtain ⟨hne, hops⟩ := h.grantsOf_ne_nil e' he'
    obtain ⟨op, hop⟩ := List.exists_mem_of_ne_nil _ hne
    exact ⟨List.ne_nil_of_mem (Operations.mem_canonical.2 ⟨hops op hop, hop⟩),
      fun op hop => (Operations.mem_canonical.1 hop).1⟩
  obtain ⟨gs, hgs, hgrouping⟩ := Limits.exists_groups fun e he => (known e he).2
  refine ⟨gs, hgs, grants_limitsOf limits ▸ hgrouping, fun g hg => ?_⟩
  obtain ⟨e, he, hops⟩ := List.mem_map.1
    (hgrouping.mem_operations_iff.1 (List.mem_map_of_mem hg))
  exact ⟨hops ▸ (known e he).1, hops ▸ (known e he).2⟩

/-! ## Sections of groups -/

section Grouped

variable {gs : List Group} {es : Grants}
  (hgrouping : IsGrouping gs (es.map fun e => (e.1, Operations.canonical e.2)))

include hgrouping

theorem exists_group {e : Principal × List Text} (he : e ∈ es) :
    ∃ g ∈ gs, g.operations = Operations.canonical e.2 ∧ e.1 ∈ g.principals :=
  hgrouping.mem_iff.1 (List.mem_map_of_mem he)

theorem exists_entry {g : Group} (hg : g ∈ gs) :
    ∃ e ∈ es, g.operations = Operations.canonical e.2 := by
  have hops := hgrouping.mem_operations_iff.1 (List.mem_map_of_mem hg)
  simp only [List.map_map, List.mem_map, Function.comp_def] at hops
  obtain ⟨e, he, hops⟩ := hops
  exact ⟨e, he, hops.symm⟩

/-- The lines of the sections are those of the entries. -/
theorem perm_requirements : ((gs.map sectionOf).flatMap Section.requirements).Perm
    (es.map fun e => lineOf e.1) := by
  have hlines : (gs.map sectionOf).flatMap Section.requirements =
      (gs.flatMap Group.principals).map lineOf := by
    rw [List.flatMap_map, List.map_flatMap]
    rfl
  rw [hlines]
  simpa [Function.comp_def] using hgrouping.perm_principals.map lineOf

variable (hnodup : (es.map (·.1)).Nodup)

include hnodup

theorem nodup_requirements : ((gs.map sectionOf).flatMap Section.requirements).Nodup := by
  have hmap : es.map (fun e => lineOf e.1) = (es.map (·.1)).map lineOf := by
    simp [Function.comp_def]
  rw [(perm_requirements hgrouping).nodup_iff, hmap]
  exact hnodup.map lineOf_injective

/-- The section that a line stands in is that of the group that its principal is in. -/
theorem eq_sectionOf {g : Group} (hg : g ∈ gs) {p : Principal} (hp : p ∈ g.principals)
    {s : Section} (hs : s ∈ gs.map sectionOf) (hline : lineOf p ∈ s.requirements) :
    s = sectionOf g :=
  eq_of_mem_requirements (nodup_requirements hgrouping hnodup) hs (List.mem_map_of_mem hg) hline
    (List.mem_map_of_mem hp)

variable (hknown : ∀ e ∈ es, e.2 ≠ [] ∧ ∀ op ∈ e.2, op ∈ operations)

include hknown

omit hgrouping hnodup in
theorem mem_canonical_iff {e : Principal × List Text} (he : e ∈ es) (op : Text) :
    op ∈ Operations.canonical e.2 ↔ op ∈ e.2 := by
  rw [Operations.mem_canonical]
  exact ⟨And.right, fun hop => ⟨(hknown e he).2 op hop, hop⟩⟩

omit hnodup in
theorem mem_canonical_granted_iff (op : Text) :
    op ∈ Operations.canonical (granted gs) ↔ ∃ e ∈ es, op ∈ e.2 := by
  rw [Operations.mem_canonical, granted, List.mem_flatMap]
  constructor
  · rintro ⟨-, g, hg, hop⟩
    obtain ⟨e, he, hops⟩ := exists_entry hgrouping hg
    exact ⟨e, he, (mem_canonical_iff hknown he op).1 (hops ▸ hop)⟩
  · rintro ⟨e, he, hop⟩
    obtain ⟨g, hg, hops, -⟩ := exists_group hgrouping he
    exact ⟨(hknown e he).2 op hop, g, hg, hops ▸ (mem_canonical_iff hknown he op).2 hop⟩

theorem shared_iff {e e' : Principal × List Text} (he : e ∈ es) (he' : e' ∈ es) :
    (∃ s ∈ gs.map sectionOf, lineOf e.1 ∈ s.requirements ∧ lineOf e'.1 ∈ s.requirements) ↔
      ∀ op, op ∈ e.2 ↔ op ∈ e'.2 := by
  obtain ⟨g, hg, hops, hp⟩ := exists_group hgrouping he
  obtain ⟨g', hg', hops', hp'⟩ := exists_group hgrouping he'
  rw [← Operations.canonical_eq_iff (hknown e he).2 (hknown e' he').2, ← hops, ← hops']
  constructor
  · rintro ⟨s, hs, hline, hline'⟩
    have h₁ := eq_sectionOf hgrouping hnodup hg hp hs hline
    have h₂ := eq_sectionOf hgrouping hnodup hg' hp' hs hline'
    exact congrArg Section.operations (h₁.symm.trans h₂)
  · intro heq
    have hsame : g = g' := List.inj_on_of_nodup_map hgrouping.nodup hg hg' heq
    exact ⟨sectionOf g, List.mem_map_of_mem hg, List.mem_map_of_mem hp,
      List.mem_map_of_mem (hsame ▸ hp')⟩

/-- The groups of grants, as sections, say the grants. -/
theorem says_of_isGrouping : Says ⟨gs.map sectionOf, Operations.canonical (granted gs)⟩ es where
  lines := perm_requirements hgrouping
  nodup := nodup_requirements hgrouping hnodup
  sections := by
    intro s hs
    obtain ⟨g, hg, rfl⟩ := List.mem_map.1 hs
    obtain ⟨e, he, hops⟩ := exists_entry hgrouping hg
    obtain ⟨op, hop⟩ := List.exists_mem_of_ne_nil _ (hknown e he).1
    obtain ⟨p, hp⟩ := List.exists_mem_of_ne_nil _ (hgrouping.ne_nil g hg)
    have hoperations : (sectionOf g).operations = Operations.canonical e.2 := hops
    rw [hoperations]
    exact ⟨List.ne_nil_of_mem ((mem_canonical_iff hknown he op).2 hop),
      Operations.nodup_canonical _, Operations.canonical_sublist _,
      List.ne_nil_of_mem (List.mem_map_of_mem hp)⟩
  placed := by
    intro e he
    obtain ⟨g, hg, hops, hp⟩ := exists_group hgrouping he
    refine ⟨sectionOf g, List.mem_map_of_mem hg, List.mem_map_of_mem hp, fun op => ?_,
      fun t ht hline => eq_sectionOf hgrouping hnodup hg hp ht hline⟩
    rw [← mem_canonical_iff hknown he op, ← hops]
    rfl
  shared := fun _ he _ he' => shared_iff hgrouping hnodup hknown he he'
  excepted := ⟨Operations.canonical_sublist _, mem_canonical_granted_iff hgrouping hknown⟩

end Grouped

/-! ## Limit blocks -/

/-- The block of accepted limits : the lines of their groups, or nothing. -/
theorem exists_limitBlock (h : AcceptedLimits limits) : ∃ gs,
    IsGrouping gs ((grantsOf limits).map fun e => (e.1, Operations.canonical e.2)) ∧
    (∀ g ∈ gs, Group.IsKnown g) ∧
    limitBlock (limitsOf limits) =
      .ok (if grantsOf limits = [] then [] else Text.ofLines (limitLines gs)) := by
  obtain ⟨gs, hgs, hgrouping, hknown⟩ := exists_groups h
  refine ⟨gs, hgrouping, hknown, ?_⟩
  have hempty : (limitsOf limits).isEmpty = true ↔ grantsOf limits = [] := by
    rw [Limits.isEmpty_iff, grants_limitsOf, List.map_eq_nil_iff]
  unfold limitBlock
  by_cases hnil : grantsOf limits = []
  · rw [if_pos (hempty.2 hnil), if_pos hnil]
  · rw [if_neg (fun he => hnil (hempty.1 he)), if_neg hnil, hgs]
    rfl

theorem feeds_perm {ps qs : List Principal} (h : ps.Perm qs) : feeds ps = feeds qs :=
  (h.map _).sum_nat

theorem perm_principals {gs : List Group}
    (h : IsGrouping gs ((grantsOf limits).map fun e => (e.1, Operations.canonical e.2))) :
    (gs.flatMap Group.principals).Perm ((grantsOf limits).map (·.1)) := by
  simpa [Function.comp_def] using h.perm_principals

/-- The name of a principal that is no host has no control characters. -/
theorem isControl_of_mem_grantsOf (h : AcceptedLimits limits) {e : Principal × List Text}
    (he : e ∈ grantsOf limits) (hkind : e.1.kind ≠ .hosts) :
    ∀ c ∈ e.1.name, c.isControl = false := by
  obtain ⟨e', he', hname, -⟩ := mem_grantsOf.1 he
  rw [hname]
  exact (h.names _ e' he').isControl hkind

/-- Where hosts have no line feeds in their names, nobody has. -/
theorem feeds_eq_zero (h : AcceptedLimits limits)
    (hhosts : ∀ e ∈ principalsOf limits .hosts, CodePoint.char '\n' ∉ e.1.shown) :
    feeds ((grantsOf limits).map (·.1)) = 0 := by
  rw [feeds_eq_zero_iff]
  intro p hp hmem
  obtain ⟨e, he, rfl⟩ := List.mem_map.1 hp
  by_cases hkind : e.1.kind = .hosts
  · obtain ⟨e', he', hname, -⟩ := mem_grantsOf.1 he
    rw [hkind] at he'
    exact hhosts e' he' (hname ▸ hmem)
  · have := isControl_of_mem_grantsOf h he hkind _ hmem
    rw [CodePoint.isControl_lineFeed] at this
    cases this

/-- The text says what the entries grant; without entries it is empty. -/
def IsBlockOf (t : Text) (es : Grants) : Prop :=
  (es = [] ∧ t = []) ∨ (es ≠ [] ∧ ∃ r, read t = some r ∧ Says r es)

/-- An accepted document compiles with every realm that is a text, and with none. -/
theorem exists_compile {override defaults realm : Document} (ho : override.DistinctKeys)
    (hd : defaults.DistinctKeys) (hvalid : (Policy.merged override defaults).validate = .ok ())
    (hrealm : realm = .null ∨ ∃ s, realm = .text s) :
    ∃ b, Policy.compile override defaults realm = .ok b := by
  obtain ⟨auth, hcompile⟩ := Policy.compile_eq ho hd hrealm hvalid
  obtain ⟨gs, -, -, hblock⟩ := exists_limitBlock (accepted_of_validate hvalid).limits
  rw [Policy.limitEntries, hblock] at hcompile
  exact ⟨_, hcompile⟩

section Compiled

variable {override defaults : Document} (ho : override.DistinctKeys) (hd : defaults.IsBase)

include ho hd

/-- The limit block says exactly what the document says, if no host has a line feed in its
name. -/
theorem compile_says (realm : Document)
    (hvalid : (Policy.merged override defaults).validate = .ok ())
    (hhosts : ∀ e ∈ principalsOf (Policy.limitEntries override defaults) .hosts,
      CodePoint.char '\n' ∉ e.1.shown) :
    (realm = .null ∨ (∃ s, realm = .text s) →
      ∃ b, Policy.compile override defaults realm = .ok b) ∧
    ∀ b, Policy.compile override defaults realm = .ok b →
      IsBlockOf b.limits (grantsOf (Policy.limitEntries override defaults)) := by
  refine ⟨fun hrealm => exists_compile ho hd.distinctKeys hvalid hrealm, fun b hb => ?_⟩
  have haccepted : AcceptedLimits (Policy.limitEntries override defaults) :=
    (accepted_of_validate hvalid).limits
  obtain ⟨gs, hgrouping, hknown, hblock⟩ := exists_limitBlock haccepted
  obtain ⟨-, hlimits⟩ := Policy.limitBlock_of_compile ho hd.distinctKeys hb
  rw [hblock, Except.ok.injEq] at hlimits
  rw [← hlimits]
  by_cases hnil : grantsOf (Policy.limitEntries override defaults) = []
  · exact Or.inl ⟨hnil, if_pos hnil⟩
  · rw [if_neg hnil]
    have hgs : gs ≠ [] := fun he => hnil (List.map_eq_nil_iff.1 (hgrouping.eq_nil_iff.1 he))
    have hfeeds : feeds (gs.flatMap Group.principals) = 0 :=
      (feeds_perm (perm_principals hgrouping)).trans (feeds_eq_zero haccepted hhosts)
    exact Or.inr ⟨hnil, _, read_limitLines hgs hknown hfeeds, says_of_isGrouping hgrouping
      (nodup_principals haccepted (Policy.apart_principalsOf ho hd.distinctKeys))
      haccepted.grantsOf_ne_nil⟩

end Compiled

/-- Two hosts by the defaults, a user and a group by lists of their own. -/
def mixedOverride : Document :=
  .mapping (namedEntries [("limits", .mapping (namedEntries [
    ("hosts", .mapping (namedEntries
      [("10.0.0.0/8", .null), ("fe80::1%eth0", .text defaultsWord)])),
    ("users", .mapping (namedEntries [("alice", .sequence [.text "PUT", .text "GET"])])),
    ("ldap_groups", .mapping (namedEntries [("cn=staff", .sequence [.text "GET"])]))]))])

theorem distinctKeys_mixedOverride : mixedOverride.DistinctKeys := by
  refine distinctKeys_namedEntries (by decide) (List.forall_mem_singleton.2 ?_)
  refine distinctKeys_namedEntries (by decide) (List.forall_mem_cons.2 ⟨?_,
    List.forall_mem_cons.2 ⟨?_, List.forall_mem_singleton.2 ?_⟩⟩)
  · exact distinctKeys_namedEntries (by decide) (List.forall_mem_cons.2 ⟨.scalar _,
      List.forall_mem_singleton.2 (.scalar _)⟩)
  · exact distinctKeys_namedEntries (by decide) (List.forall_mem_singleton.2
      (distinctKeys_scalars (by simp)))
  · exact distinctKeys_namedEntries (by decide) (List.forall_mem_singleton.2
      (distinctKeys_scalars (by simp)))

/-- With every host name free of line feeds. -/
theorem compile_says_mixedOverride : ∃ b r, Policy.compile mixedOverride .null .null = .ok b ∧
    read b.limits = some r ∧ Says r (grantsOf (Policy.limitEntries mixedOverride .null)) := by
  have hvalid : (Policy.merged mixedOverride .null).validate = .ok () :=
    validate_eq_ok_iff.2 (by decide +kernel)
  have hfeeds : ∀ e ∈ principalsOf (Policy.limitEntries mixedOverride .null) .hosts,
      CodePoint.char '\n' ∉ e.1.shown := by
    decide +kernel
  have h := compile_says distinctKeys_mixedOverride (Document.isBase_scalar _) .null hvalid hfeeds
  obtain ⟨b, hb⟩ := h.1 (Or.inl rfl)
  rcases h.2 b hb with ⟨hnil, -⟩ | ⟨-, r, hr, hsays⟩
  · exact absurd (congrArg List.length hnil) (by decide +kernel)
  · exact ⟨b, r, hb, hr, hsays⟩

/-! ## The number of lines -/

/-- How many sets of operations are granted. -/
def distinctSets (es : Grants) : Nat :=
  (es.map fun e => e.2.toFinset).toFinset.card

/-- One line for each principal, four for each set of operations, and three at the end. -/
def lineCount (es : Grants) : Nat :=
  if es = [] then 0 else es.length + 4 * distinctSets es + 3

/-- No name has a control character. -/
def IsClean (es : Grants) : Prop :=
  ∀ e ∈ es, ∀ c ∈ e.1.name, c.isControl = false

/-- There is a canonical list for every set. -/
theorem card_canonical {es : Grants} (h : ∀ e ∈ es, ∀ op ∈ e.2, op ∈ operations) :
    (es.map fun e => Operations.canonical e.2).toFinset.card = distinctSets es := by
  have hsets : ∀ e ∈ es, (Operations.canonical e.2).toFinset = e.2.toFinset := by
    intro e he
    ext op
    rw [List.mem_toFinset, List.mem_toFinset, Operations.mem_canonical]
    exact ⟨And.right, fun hop => ⟨h e he op hop, hop⟩⟩
  have himage : (es.map fun e => e.2.toFinset).toFinset =
      (es.map fun e => Operations.canonical e.2).toFinset.image List.toFinset := by
    ext s
    simp only [List.mem_toFinset, Finset.mem_image, List.mem_map]
    constructor
    · rintro ⟨e, he, rfl⟩
      exact ⟨_, ⟨e, he, rfl⟩, hsets e he⟩
    · rintro ⟨_, ⟨e, he, rfl⟩, rfl⟩
      exact ⟨e, he, (hsets e he).symm⟩
  rw [distinctSets, himage, Finset.card_image_of_injOn]
  intro names hnames names' hnames' heq
  rw [Finset.mem_coe, List.mem_toFinset, List.mem_map] at hnames hnames'
  obtain ⟨e, he, rfl⟩ := hnames
  obtain ⟨e', he', rfl⟩ := hnames'
  have heq : (Operations.canonical e.2).toFinset = (Operations.canonical e'.2).toFinset := heq
  rw [hsets e he, hsets e' he'] at heq
  refine (Operations.canonical_eq_iff (h e he) (h e' he')).2 fun op => ?_
  rw [← List.mem_toFinset, heq, List.mem_toFinset]

section Clean

variable {override defaults realm : Document} (ho : override.DistinctKeys)
  (hd : defaults.IsBase) {b : Blocks} (hb : Policy.compile override defaults realm = .ok b)

include ho hd hb

/-- The number of lines of the block of whatever compiles. -/
theorem count_compile : b.limits.count (.char '\n') =
    lineCount (grantsOf (Policy.limitEntries override defaults)) +
      feeds ((grantsOf (Policy.limitEntries override defaults)).map (·.1)) := by
  obtain ⟨hvalid, hlimits⟩ := Policy.limitBlock_of_compile ho hd.distinctKeys hb
  have haccepted : AcceptedLimits (Policy.limitEntries override defaults) :=
    (accepted_of_validate hvalid).limits
  obtain ⟨gs, hgrouping, hknown, hblock⟩ := exists_limitBlock haccepted
  rw [hblock, Except.ok.injEq] at hlimits
  rw [← hlimits, lineCount]
  split
  · next hnil => rw [hnil]; rfl
  · have hlength : gs.length = distinctSets (grantsOf (Policy.limitEntries override defaults)) := by
      rw [hgrouping.length_eq, List.map_map, ← card_canonical fun e he =>
        (haccepted.grantsOf_ne_nil e he).2]
      rfl
    have hperm := perm_principals hgrouping
    rw [count_limitLines hknown, hperm.length_eq, List.length_map, hlength, feeds_perm hperm]

/-- Names have no control characters, and the block has the lines of its principals and sets
of operations and no others, if and only if the zones of hosts have no control characters. -/
theorem clean_iff : (IsClean (grantsOf (Policy.limitEntries override defaults)) ∧
      b.limits.count (.char '\n') =
        lineCount (grantsOf (Policy.limitEntries override defaults))) ↔
    ∀ e ∈ principalsOf (Policy.limitEntries override defaults) .hosts,
      ∀ c ∈ Address.zone e.1.shown, c.isControl = false := by
  obtain ⟨hvalid, -⟩ := Policy.limitBlock_of_compile ho hd.distinctKeys hb
  have haccepted : AcceptedLimits (Policy.limitEntries override defaults) :=
    (accepted_of_validate hvalid).limits
  constructor
  · rintro ⟨hclean, -⟩ e he c hc
    exact hclean (⟨.hosts, e.1.shown⟩, Validation.granted _ e.2)
      (mem_grantsOf.2 ⟨e, he, rfl, rfl⟩) c (Address.mem_of_mem_zone hc)
  · intro hzones
    have hclean : IsClean (grantsOf (Policy.limitEntries override defaults)) := by
      intro e he
      by_cases hkind : e.1.kind = .hosts
      · obtain ⟨e', he', hname, -⟩ := mem_grantsOf.1 he
        rw [hkind] at he'
        intro c hc
        rw [hname] at hc
        by_contra hcontrol
        rw [Bool.not_eq_false] at hcontrol
        have hzone := Address.mem_zone_of_isControl (haccepted.names .hosts e' he') hc hcontrol
        rw [hzones e' he' c hzone] at hcontrol
        cases hcontrol
      · exact isControl_of_mem_grantsOf haccepted he hkind
    refine ⟨hclean, ?_⟩
    have hfeeds : feeds ((grantsOf (Policy.limitEntries override defaults)).map (·.1)) = 0 := by
      rw [feeds_eq_zero_iff]
      intro p hp hmem
      obtain ⟨e, he, rfl⟩ := List.mem_map.1 hp
      have := hclean e he _ hmem
      rw [CodePoint.isControl_lineFeed] at this
      cases this
    rw [count_compile ho hd hb, hfeeds, Nat.add_zero]

end Clean

/-- With a zone that is the name of an interface. -/
theorem clean_mixedOverride : ∃ b, Policy.compile mixedOverride .null .null = .ok b ∧
    IsClean (grantsOf (Policy.limitEntries mixedOverride .null)) ∧
    b.limits.count (.char '\n') =
      lineCount (grantsOf (Policy.limitEntries mixedOverride .null)) := by
  have hvalid : (Policy.merged mixedOverride .null).validate = .ok () :=
    validate_eq_ok_iff.2 (by decide +kernel)
  obtain ⟨b, hb⟩ := exists_compile distinctKeys_mixedOverride (.scalar .null) hvalid (Or.inl rfl)
  refine ⟨b, hb, (clean_iff distinctKeys_mixedOverride (Document.isBase_scalar _) hb).2 ?_⟩
  decide +kernel

/-- One host, by the defaults. -/
def hostOverride (name : String) : Document :=
  .mapping (namedEntries [("limits", .mapping (namedEntries [
    ("hosts", .mapping (namedEntries [(name, .text defaultsWord)]))]))])

/-- A zone with a second line is accepted, and the block has that line. -/
theorem injected_line :
    ∃ b, Policy.compile (hostOverride "::1%x\nRequire all granted") .null .null = .ok b ∧
      Text.ofString "Require all granted" ∈ Text.split (.char '\n') b.limits ∧
      ¬(IsClean (grantsOf
          (Policy.limitEntries (hostOverride "::1%x\nRequire all granted") .null)) ∧
        b.limits.count (.char '\n') = lineCount (grantsOf
          (Policy.limitEntries (hostOverride "::1%x\nRequire all granted") .null))) := by
  have hlines : ((Policy.compile (hostOverride "::1%x\nRequire all granted") .null
      .null).toOption.map fun b =>
        (Text.split (.char '\n') b.limits).contains "Require all granted") = some true := by
    decide +kernel
  obtain ⟨b, hb, hline⟩ := Option.map_eq_some_iff.1 hlines
  refine ⟨b, ?_, List.contains_iff_mem.1 hline, fun hclean => ?_⟩
  · cases hc : Policy.compile (hostOverride "::1%x\nRequire all granted") .null .null with
    | error r => rw [hc] at hb; cases hb
    | ok b' => rw [hc] at hb; rw [Option.some.inj hb]
  · have hbad : ∃ e ∈ grantsOf
        (Policy.limitEntries (hostOverride "::1%x\nRequire all granted") .null),
        ∃ c ∈ e.1.name, c.isControl = true := by
      decide +kernel
    obtain ⟨e, he, c, hc, hcontrol⟩ := hbad
    rw [hclean.1 e he c hc] at hcontrol
    cases hcontrol

end AccessPolicy.Directive
