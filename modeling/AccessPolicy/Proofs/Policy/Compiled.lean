import AccessPolicy.Policy.Compile
import AccessPolicy.Proofs.Document.Overlay
import AccessPolicy.Proofs.Policy.Accepted
import AccessPolicy.Proofs.Policy.Groups
import AccessPolicy.Proofs.Result

/-!
# Compiling accepted documents

`Validation.grantsOf` reads off a document's limits what its principals are granted : a list
of their own, or the defaults. An accepted document always compiles (`exists_compile`), and
the limits that its limit block is made of hold these grants one by one, each list of
operations in canonical order.
-/

namespace AccessPolicy

/-! ## Canonical order -/

namespace Operations

theorem mem_canonical {op : Text} {names : List Text} :
    op ∈ canonical names ↔ op ∈ operations ∧ op ∈ names := by
  simp [canonical]

theorem nodup_operations : operations.Nodup := by
  decide

theorem canonical_sublist (names : List Text) : (canonical names).Sublist operations :=
  List.filter_sublist

theorem nodup_canonical (names : List Text) : (canonical names).Nodup :=
  nodup_operations.sublist (canonical_sublist names)

theorem canonical_congr {names names' : List Text} (h : ∀ op, op ∈ names ↔ op ∈ names') :
    canonical names = canonical names' := by
  refine List.filter_congr fun op _ => ?_
  rw [Bool.eq_iff_iff, List.contains_iff_mem, List.contains_iff_mem]
  exact h op

/-- Lists of known operations have the same canonical order if they have the same members. -/
theorem canonical_eq_iff {names names' : List Text} (h : ∀ op ∈ names, op ∈ operations)
    (h' : ∀ op ∈ names', op ∈ operations) :
    canonical names = canonical names' ↔ ∀ op, op ∈ names ↔ op ∈ names' := by
  refine ⟨fun heq op => ⟨fun hop => ?_, fun hop => ?_⟩, canonical_congr⟩
  · have : op ∈ canonical names := mem_canonical.2 ⟨h op hop, hop⟩
    exact (mem_canonical.1 (heq ▸ this)).2
  · have : op ∈ canonical names' := mem_canonical.2 ⟨h' op hop, hop⟩
    exact (mem_canonical.1 (heq.symm ▸ this)).2

end Operations

/-! ## Grants of a document -/

namespace Validation

/-- The texts among the items of a sequence. -/
def listed (d : Document) : List Text :=
  (d.items?.getD []).filterMap Document.text?

/-- The operations that a principal's value grants under these limits. -/
def granted (limits : Entries) (d : Document) : List Text :=
  match d with
  | .null => listed (limits.getD "defaults")
  | .text s => if s = defaultsWord then listed (limits.getD "defaults") else listed d
  | d => listed d

/-- The entries of all principals, class by class, with what they are granted. -/
def grantsOf (limits : Entries) : Grants :=
  PrincipalClass.all.flatMap fun c =>
    (principalsOf limits c).map fun e => (⟨c, e.1.shown⟩, granted limits e.2)

theorem mem_grantsOf {limits : Entries} {p : Principal} {ops : List Text} :
    (p, ops) ∈ grantsOf limits ↔ ∃ e ∈ principalsOf limits p.kind,
      p.name = e.1.shown ∧ ops = granted limits e.2 := by
  simp only [grantsOf, List.mem_flatMap, List.mem_map, Prod.mk.injEq]
  constructor
  · rintro ⟨c, -, e, he, rfl, rfl⟩
    exact ⟨e, he, rfl, rfl⟩
  · rintro ⟨e, he, hname, rfl⟩
    exact ⟨p.kind, PrincipalClass.mem_all _, e, he, by rw [← hname], rfl⟩

theorem listed_of_items? {d : Document} {names : List Text}
    (h : d.items? = some (names.map Document.text)) : listed d = names := by
  simp [listed, h, List.filterMap_map, Function.comp_def, Document.text?]

theorem layer_of_items? {d : Document} {items : List Document} (h : d.items? = some items) :
    d.layer = .sequence items := by
  unfold Document.items? at h
  split at h
  · next items' hl => rw [hl, Option.some.inj h]
  · cases h

theorem toKeys?_texts (names : List Text) :
    Document.toKeys? (names.map Document.text) = some (names.map Key.text) := by
  induction names with
  | nil => rfl
  | cons name names ih => simp [Document.toKeys?, Document.toKey?, ih]

theorem ofDocument_of_isOperationList {d : Document} (h : IsOperationList d) :
    Operations.ofDocument d = .ok (Operations.canonical (listed d)) := by
  obtain ⟨names, hitems, -, -⟩ := h
  have hmembers : d.members = .ok (names.map Document.text) := by
    simp [Document.members, Document.members?, layer_of_items? hitems]
  have htexts : (names.map Document.text).filterMap Document.text? = names := by
    simp [List.filterMap_map, Function.comp_def, Document.text?]
  simp only [Operations.ofDocument, hmembers, listed_of_items? hitems, bind, Except.bind,
    toKeys?_texts, htexts]
  rfl

theorem isGiven_of_isOperationList {d : Document} (h : IsOperationList d) :
    d.isGiven = true := by
  obtain ⟨names, hitems, hne, -⟩ := h
  simp [Document.isGiven, layer_of_items? hitems, hne]

theorem listed_of_isOperationList {d : Document} (h : IsOperationList d) :
    listed d ≠ [] ∧ ∀ op ∈ listed d, op ∈ operations := by
  obtain ⟨names, hitems, hne, hnames⟩ := h
  rw [listed_of_items? hitems]
  exact ⟨hne, hnames⟩

/-- A value that is a list of operations is no scalar. -/
theorem granted_of_isOperationList {limits : Entries} {d : Document} (h : IsOperationList d) :
    granted limits d = listed d := by
  cases d with
  | scalar s =>
    obtain ⟨names, hitems, -⟩ := h
    cases hitems
  | sequence | tuple | mapping | set | cyclic => rfl

theorem granted_of_pointsAtDefaults {limits : Entries} {d : Document} (h : PointsAtDefaults d) :
    granted limits d = listed (limits.getD "defaults") := by
  rcases h with rfl | rfl
  · rfl
  · simp [granted]

namespace AcceptedLimits

variable {limits : Entries} (h : AcceptedLimits limits)

include h

theorem granted_ne_nil {c : PrincipalClass} {e : Key × Document}
    (he : e ∈ principalsOf limits c) :
    granted limits e.2 ≠ [] ∧ ∀ op ∈ granted limits e.2, op ∈ operations := by
  rcases h.grants c e he with hd | hd
  · rw [granted_of_pointsAtDefaults hd]
    exact listed_of_isOperationList h.defaults
  · rw [granted_of_isOperationList hd]
    exact listed_of_isOperationList hd

theorem grantsOf_ne_nil : ∀ e ∈ grantsOf limits,
    e.2 ≠ [] ∧ ∀ op ∈ e.2, op ∈ operations := by
  rintro ⟨p, ops⟩ hmem
  obtain ⟨e, he, -, rfl⟩ := mem_grantsOf.1 hmem
  exact h.granted_ne_nil he

theorem resolve_eq {c : PrincipalClass} {e : Key × Document} (he : e ∈ principalsOf limits c) :
    Operations.resolve e.2 (Operations.canonical (listed (limits.getD "defaults"))) =
      .ok (Operations.canonical (granted limits e.2)) := by
  rcases h.grants c e he with hd | hd
  · rw [granted_of_pointsAtDefaults hd]
    rcases hd with hd | hd
    · rw [hd]
      rfl
    · simp [hd, Operations.resolve]
  · rw [granted_of_isOperationList hd, ← ofDocument_of_isOperationList hd]
    obtain ⟨k, d⟩ := e
    cases d with
    | scalar s =>
      obtain ⟨names, hitems, -⟩ := hd
      cases hitems
    | sequence | tuple | mapping | set | cyclic => rfl

end AcceptedLimits

end Validation

/-! ## Rosters -/

theorem Roster.insert_of_not_mem {name : Text} {ops : List Text} : ∀ {roster : Roster},
    name ∉ roster.map (·.1) → Roster.insert name ops roster = roster ++ [(name, ops)]
  | [], _ => rfl
  | e :: es, h => by
    rw [List.map_cons, List.mem_cons, not_or] at h
    rw [Roster.insert, if_neg (Ne.symm h.1), Roster.insert_of_not_mem h.2, List.cons_append]

/-- One entry more. -/
def Roster.addEntry (defaults : List Text) (roster : Roster) (e : Key × Document) :
    Except Fault Roster := do
  if !e.1.isShowable then throw .longNumeral
  return roster.insert e.1.shown (← Operations.resolve e.2 defaults)

theorem Roster.ofEntries_eq_foldlM (defaults : List Text) (es : Entries) :
    Roster.ofEntries defaults es = es.foldlM (Roster.addEntry defaults) [] :=
  rfl

theorem Roster.addEntry_eq {defaults ops : List Text} {roster : Roster} {e : Key × Document}
    (hname : ∃ s, e.1 = .text s) (hops : Operations.resolve e.2 defaults = .ok ops)
    (hnot : e.1.shown ∉ roster.map (·.1)) :
    Roster.addEntry defaults roster e = .ok (roster ++ [(e.1.shown, ops)]) := by
  obtain ⟨s, hs⟩ := hname
  have hshowable : e.1.isShowable = true := by rw [hs]; rfl
  rw [Roster.addEntry, hshowable, hops, ← Roster.insert_of_not_mem hnot]
  rfl

/-- Entries with texts for keys, no two of them shown alike, each give one member. -/
theorem Roster.foldlM_addEntry {defaults : List Text} (ops : Document → List Text) :
    ∀ (es : Entries) (roster : Roster), (∀ e ∈ es, ∃ s, e.1 = .text s) →
      (roster.map (·.1) ++ es.map fun e => e.1.shown).Nodup →
      (∀ e ∈ es, Operations.resolve e.2 defaults = .ok (ops e.2)) →
      es.foldlM (Roster.addEntry defaults) roster =
        .ok (roster ++ es.map fun e => (e.1.shown, ops e.2))
  | [], roster, _, _, _ => by simp [pure, Except.pure]
  | e :: es, roster, hnames, hnodup, hops => by
    have hnot : e.1.shown ∉ roster.map (·.1) := by
      rw [List.map_cons, List.nodup_append] at hnodup
      exact fun hmem => hnodup.2.2 _ hmem _ List.mem_cons_self rfl
    have hrest := Roster.foldlM_addEntry ops es (roster ++ [(e.1.shown, ops e.2)])
      (fun e he => hnames e (List.mem_cons_of_mem _ he)) (by simpa using hnodup)
      (fun e he => hops e (List.mem_cons_of_mem _ he))
    rw [List.foldlM_cons, Roster.addEntry_eq (hnames e List.mem_cons_self)
      (hops e List.mem_cons_self) hnot]
    show es.foldlM (Roster.addEntry defaults) (roster ++ [(e.1.shown, ops e.2)]) = _
    rw [hrest, List.append_assoc]
    rfl

/-- Texts that name different entries are shown differently. -/
theorem Key.Apart.nodup_shown {es : Entries} (h : Key.Apart es.keys)
    (hnames : ∀ e ∈ es, ∃ s, e.1 = .text s) : (es.map fun e => e.1.shown).Nodup := by
  rw [Key.Apart, Entries.keys, List.pairwise_map] at h
  rw [List.Nodup, List.pairwise_map]
  refine h.imp_of_mem fun {a b} ha hb hab heq => ?_
  obtain ⟨s, hs⟩ := hnames a ha
  obtain ⟨t, ht⟩ := hnames b hb
  rw [hs, ht, Key.same_text, decide_eq_false_iff_not] at hab
  rw [hs, ht] at heq
  exact hab heq

/-! ## Limits -/

namespace Validation

/-- The principals of a class with what they are granted, in canonical order. -/
def rosterOf (limits : Entries) (c : PrincipalClass) : Roster :=
  (principalsOf limits c).map fun e => (e.1.shown, Operations.canonical (granted limits e.2))

/-- The limits that hold what the document grants. -/
def limitsOf (limits : Entries) : Limits where
  defaults := Operations.canonical (listed (limits.getD "defaults"))
  hosts := rosterOf limits .hosts
  users := rosterOf limits .users
  ldapGroups := rosterOf limits .ldapGroups

theorem grants_limitsOf (limits : Entries) : (limitsOf limits).grants =
    (grantsOf limits).map fun e => (e.1, Operations.canonical e.2) := by
  simp only [Limits.grants, grantsOf, List.map_flatMap, List.map_map]
  refine List.flatMap_congr fun c _ => ?_
  cases c <;> simp [Limits.principals, limitsOf, rosterOf, Function.comp_def]

end Validation

namespace Validation.AcceptedLimits

variable {limits : Entries} (h : AcceptedLimits limits)

include h

theorem givenEntries_eq (c : PrincipalClass) :
    (limits.getD c.name).givenEntries = .ok (principalsOf limits c) := by
  unfold Document.givenEntries principalsOf Document.entries
  rcases h.shapes c with hnull | hmapping
  · rw [hnull]
    rfl
  · obtain ⟨es, hes⟩ := Option.isSome_iff_exists.1 hmapping
    rw [hes]
    rfl

theorem nodup_shown (c : PrincipalClass) (apart : Key.Apart (principalsOf limits c).keys) :
    ((principalsOf limits c).map fun e => e.1.shown).Nodup :=
  apart.nodup_shown fun e he => (h.names c e he).exists_text

theorem ofEntries_eq {c : PrincipalClass} (apart : Key.Apart (principalsOf limits c).keys) :
    Roster.ofEntries (Operations.canonical (listed (limits.getD "defaults")))
      (principalsOf limits c) = .ok (rosterOf limits c) := by
  rw [Roster.ofEntries_eq_foldlM, Roster.foldlM_addEntry
    (fun d => Operations.canonical (granted limits d)) _ _
    (fun e he => (h.names c e he).exists_text)
    (by simpa using h.nodup_shown c apart) fun e he => h.resolve_eq he]
  rfl

/-- Accepted limits are read roster by roster. -/
theorem ofEntries_eq_rosters : Limits.ofEntries limits = (do
    let defaults := Operations.canonical (listed (limits.getD "defaults"))
    let hosts ← Roster.ofEntries defaults (principalsOf limits .hosts)
    let users ← Roster.ofEntries defaults (principalsOf limits .users)
    let groups ← Roster.ofEntries defaults (principalsOf limits .ldapGroups)
    return ⟨defaults, hosts, users, groups⟩) := by
  unfold Limits.ofEntries
  simp only [isGiven_of_isOperationList h.defaults, if_true,
    ofDocument_of_isOperationList h.defaults, h.givenEntries_eq]
  rfl

/-- Accepted limits are compiled to what the document grants. -/
theorem limitsOf_eq (apart : ∀ c, Key.Apart (principalsOf limits c).keys) :
    Limits.ofEntries limits = .ok (limitsOf limits) := by
  rw [h.ofEntries_eq_rosters]
  dsimp only
  rw [h.ofEntries_eq (apart .hosts), h.ofEntries_eq (apart .users),
    h.ofEntries_eq (apart .ldapGroups)]
  rfl

end Validation.AcceptedLimits

/-! ## Methods -/

namespace Directive

theorem exists_optionalLine (name s : Text) :
    ∃ lines, optionalLine name (.text s) = .ok lines := by
  unfold optionalLine
  split
  · exact ⟨_, rfl⟩
  · exact ⟨_, rfl⟩

theorem exists_ldapUrl {m : LdapMethod} {url base : Text} (hurl : m.url = .text url)
    (hbase : m.searchBase = .text base) : ∃ line, ldapUrl m = .ok line := by
  unfold ldapUrl
  rw [hurl, hbase]
  dsimp only
  split
  · exact ⟨_, rfl⟩
  · exact ⟨_, rfl⟩

theorem exists_securitySuffix (s : Text) : ∃ suffix, securitySuffix (.text s) = .ok suffix := by
  unfold securitySuffix
  split
  · exact ⟨_, rfl⟩
  · exact ⟨_, rfl⟩

/-- The fields of the method that its directives show are texts. -/
structure HasTexts (m : LdapMethod) : Prop where
  url : ∃ s, m.url = .text s
  security : ∃ s, m.security = .text s
  bindDn : ∃ s, m.bindDn = .text s
  bindPassword : ∃ s, m.bindPassword = .text s
  searchBase : ∃ s, m.searchBase = .text s

theorem exists_ldapLines {m : LdapMethod} (h : HasTexts m) (basic : Bool) :
    ∃ lines, ldapLines m basic = .ok lines := by
  obtain ⟨url, hurl⟩ := h.url
  obtain ⟨security, hsecurity⟩ := h.security
  obtain ⟨bindDn, hbindDn⟩ := h.bindDn
  obtain ⟨bindPassword, hbindPassword⟩ := h.bindPassword
  obtain ⟨base, hbase⟩ := h.searchBase
  unfold ldapLines
  rw [hsecurity, hbindDn, hbindPassword]
  exact exists_bind (exists_ldapUrl hurl hbase) fun _ =>
    exists_bind (exists_securitySuffix security) fun _ =>
      exists_bind (exists_optionalLine _ bindDn) fun _ =>
        exists_bind (exists_optionalLine _ bindPassword) fun _ => ⟨_, rfl⟩

/-- Methods whose enabled ones have texts to show, and a realm that is a text, have a block. -/
theorem exists_authBlock {ms : Methods} {realm : Document}
    (hrealm : ∃ s, realm.orText defaultRealm = .text s)
    (hfile : ∀ m, ms.file = some m → m.enabled.isGiven = true → ∃ s, m.userFile = .text s)
    (hldap : ∀ m, ms.ldap = some m → m.enabled.isGiven = true → HasTexts m) :
    ∃ block, authBlock ms realm = .ok block := by
  suffices hlines : ∃ lines, authLines ms realm = .ok lines by
    obtain ⟨lines, hlines⟩ := hlines
    exact ⟨Text.ofLines lines, by rw [authBlock, hlines]; rfl⟩
  obtain ⟨name, hname⟩ := hrealm
  unfold authLines
  dsimp only
  split
  · exact ⟨_, rfl⟩
  · have file : ∀ m, (ms.file.filter fun m => m.enabled.isGiven) = some m →
        ∃ lines, fileLines m = .ok lines := by
      intro m hm
      rw [Option.filter_eq_some_iff] at hm
      obtain ⟨s, hs⟩ := hfile m hm.1 hm.2
      exact ⟨_, by rw [fileLines, hs]; rfl⟩
    have ldap : ∀ m basic, (ms.ldap.filter fun m => m.enabled.isGiven) = some m →
        ∃ lines, ldapLines m basic = .ok lines := by
      intro m basic hm
      rw [Option.filter_eq_some_iff] at hm
      exact exists_ldapLines (hldap m hm.1 hm.2) basic
    refine exists_bind ⟨quote name, by rw [hname]; rfl⟩ fun _ => ?_
    split
    · next m hm =>
      refine exists_bind (file m hm) fun _ => ?_
      split
      · next m' hm' => exact exists_bind (ldap m' _ hm') fun _ => ⟨_, rfl⟩
      · exact ⟨_, rfl⟩
    · refine exists_bind ⟨_, rfl⟩ fun _ => ?_
      split
      · next m' hm' => exact exists_bind (ldap m' _ hm') fun _ => ⟨_, rfl⟩
      · exact ⟨_, rfl⟩

end Directive

/-- The methods that the document describes. -/
def Validation.methodsOf (methods : Entries) : Methods where
  file := (methods.get? "file").map fun _ => .ofEntries (configOf methods .file)
  ldap := (methods.get? "ldap").map fun _ => .ofEntries (configOf methods .ldap)

namespace Validation.AcceptedMethods

variable {methods : Entries} (h : AcceptedMethods methods)

include h

/-- The method of a kind is there with the fields that the validator looked at. -/
theorem entries?_of_get? (kind : MethodKind) {d : Document}
    (hd : methods.get? kind.name = some d) : d.entries? = some (configOf methods kind) ∧
      ∀ v, (configOf methods kind).get? "enabled" = some v → ∃ b, v = .bool b := by
  obtain ⟨e, he, -, rfl⟩ := Entries.mem_of_lookup hd
  obtain ⟨es, hes, henabled⟩ := h.shapes e he
  have hconfig : configOf methods kind = es := by
    simp [configOf, Entries.getD, hd, Document.entries, hes]
  rw [hconfig]
  exact ⟨hes, henabled⟩

/-- A method is compiled as enabled only if the validator took it for enabled. -/
theorem isEnabled_of_isGiven (kind : MethodKind) {d : Document}
    (hd : methods.get? kind.name = some d)
    (hgiven : ((configOf methods kind).flag "enabled").isGiven = true) :
    isEnabled methods kind = true := by
  unfold isEnabled Entries.getD
  unfold Entries.flag at hgiven
  cases hv : (configOf methods kind).get? "enabled" with
  | none =>
    rw [hv] at hgiven
    cases hgiven
  | some v =>
    obtain ⟨b, rfl⟩ := (h.entries?_of_get? kind hd).2 v hv
    rw [hv] at hgiven
    exact hgiven

theorem file_eq {d : Document} (hd : methods.get? "file" = some d) :
    FileMethod.ofDocument d = .ok (.ofEntries (configOf methods .file)) := by
  rw [FileMethod.ofDocument, Document.givenEntries, (h.entries?_of_get? .file hd).1]
  rfl

theorem ldap_eq {d : Document} (hd : methods.get? "ldap" = some d) :
    LdapMethod.ofDocument d = .ok (.ofEntries (configOf methods .ldap)) := by
  rw [LdapMethod.ofDocument, Document.givenEntries, (h.entries?_of_get? .ldap hd).1]
  rfl

/-- Accepted methods are compiled to the methods they describe. -/
theorem methodsOf_eq : Methods.ofEntries methods = .ok (methodsOf methods) := by
  unfold Methods.ofEntries methodsOf
  cases hf : methods.get? "file" with
  | none =>
    cases hl : methods.get? "ldap" with
    | none => rfl
    | some d' =>
      dsimp only
      rw [h.ldap_eq hl]
      rfl
  | some d =>
    dsimp only
    rw [h.file_eq hf]
    cases hl : methods.get? "ldap" with
    | none => rfl
    | some d' =>
      dsimp only
      rw [h.ldap_eq hl]
      rfl

theorem exists_userFile {m : FileMethod} (hm : (methodsOf methods).file = some m)
    (hgiven : m.enabled.isGiven = true) : ∃ s, m.userFile = .text s := by
  obtain ⟨d, hd, rfl⟩ := Option.map_eq_some_iff.1 hm
  exact h.texts .file (h.isEnabled_of_isGiven .file hd hgiven) _ List.mem_cons_self

theorem hasTexts {m : LdapMethod} (hm : (methodsOf methods).ldap = some m)
    (hgiven : m.enabled.isGiven = true) : Directive.HasTexts m := by
  obtain ⟨d, hd, rfl⟩ := Option.map_eq_some_iff.1 hm
  have texts := h.texts .ldap (h.isEnabled_of_isGiven .ldap hd hgiven)
  exact ⟨texts _ (by simp [textFields]), texts _ (by simp [textFields]),
    texts _ (by simp [textFields]), texts _ (by simp [textFields]),
    texts _ (by simp [textFields])⟩

/-- Accepted methods have a block under a realm that is a text. -/
theorem exists_authBlock {realm : Document}
    (hrealm : ∃ s, realm.orText Directive.defaultRealm = .text s) :
    ∃ auth, Directive.authBlock (methodsOf methods) realm = .ok auth :=
  Directive.exists_authBlock hrealm (fun _ => h.exists_userFile) fun _ => h.hasTexts

end Validation.AcceptedMethods

/-! ## Documents -/

theorem distinctKeys_namedEntries {es : List (Text × Document)} (hnodup : (es.map (·.1)).Nodup)
    (h : ∀ e ∈ es, e.2.DistinctKeys) : (Document.mapping (namedEntries es)).DistinctKeys := by
  refine .mapping ?_ fun e he => ?_
  · rw [Key.Apart, Entries.keys, namedEntries, List.map_map, List.pairwise_map]
    rw [List.Nodup, List.pairwise_map] at hnodup
    refine hnodup.imp fun hne => ?_
    simpa [Key.same_text] using hne
  · obtain ⟨e', he', rfl⟩ := List.mem_map.1 he
    exact h e' he'

theorem distinctKeys_scalars {items : List Document} (h : ∀ d ∈ items, ∃ s, d = .scalar s) :
    (Document.sequence items).DistinctKeys := by
  refine .sequence fun d hd => ?_
  obtain ⟨s, rfl⟩ := h d hd
  exact .scalar s

theorem distinctKeys_defaultPolicy : defaultPolicy.DistinctKeys := by
  have scalars : ∀ {es : List (Text × Document)}, (∀ e ∈ es, ∃ s, e.2 = .scalar s) →
      ∀ e ∈ es, e.2.DistinctKeys := by
    intro es h e he
    obtain ⟨s, hs⟩ := h e he
    exact hs ▸ .scalar s
  refine distinctKeys_namedEntries (by decide) (List.forall_mem_cons.2 ⟨?_,
    List.forall_mem_singleton.2 ?_⟩)
  · refine distinctKeys_namedEntries (by decide) (List.forall_mem_cons.2 ⟨?_,
      List.forall_mem_singleton.2 ?_⟩)
    · exact distinctKeys_namedEntries (by decide) (scalars (by simp))
    · exact distinctKeys_namedEntries (by decide) (scalars (by simp))
  · refine distinctKeys_namedEntries (by decide) (List.forall_mem_cons.2 ⟨?_,
      List.forall_mem_cons.2 ⟨?_, List.forall_mem_cons.2 ⟨?_,
        List.forall_mem_singleton.2 ?_⟩⟩⟩)
    · exact distinctKeys_scalars (by simp)
    · exact distinctKeys_namedEntries (by decide) (scalars (by simp))
    · exact .mapping List.Pairwise.nil (by simp)
    · exact .mapping List.Pairwise.nil (by simp)

namespace Policy

variable {override defaults realm : Document}

theorem distinctKeys_merged (ho : override.DistinctKeys) (hd : defaults.DistinctKeys) :
    (merged override defaults).DistinctKeys := by
  refine Document.DistinctKeys.merge ?_ ho
  split
  · exact distinctKeys_defaultPolicy
  · exact hd

/-- The entries of the limits of the merged document. -/
def limitEntries (override defaults : Document) : Entries :=
  (merged override defaults).sectionEntries "limits"

theorem apart_principalsOf (ho : override.DistinctKeys) (hd : defaults.DistinctKeys)
    (c : PrincipalClass) :
    Key.Apart (Validation.principalsOf (limitEntries override defaults) c).keys := by
  have hroot := (distinctKeys_merged ho hd).entries
  have hlimits := (Entries.distinctKeys_getD hroot.2 "limits").entries
  exact (Entries.distinctKeys_getD hlimits.2 c.name).entries.1

theorem givenEntries_of_isMapping {d : Document} (h : d.isMapping = true) :
    d.givenEntries = .ok d.entries := by
  obtain ⟨es, hes⟩ := Option.isSome_iff_exists.1 h
  simp [Document.givenEntries, Document.entries, hes]

/-- The policy that an accepted document describes. -/
def accepted (d : Document) : Policy where
  methods := Validation.methodsOf (d.sectionEntries "methods")
  limits := Validation.limitsOf (d.sectionEntries "limits")

/-- An accepted document describes its methods and the limits that are read from it. -/
theorem ofDocument_of_limits {d : Document} (h : Validation.Accepted d) {l : Limits}
    (hl : Limits.ofEntries (d.sectionEntries "limits") = .ok l) :
    ofDocument d = .ok ⟨Validation.methodsOf (d.sectionEntries "methods"), l⟩ := by
  have hmethods : (d.entries.getD "methods").givenEntries = .ok (d.sectionEntries "methods") :=
    givenEntries_of_isMapping (h.sections "methods" (by simp [sectionNames]))
  have hlimits : Limits.ofDocument (d.entries.getD "limits") = .ok l := by
    rw [Limits.ofDocument,
      givenEntries_of_isMapping (h.sections "limits" (by simp [sectionNames]))]
    exact hl
  simp only [ofDocument, givenEntries_of_isMapping h.root, hmethods, h.methods.methodsOf_eq,
    hlimits, bind, Except.bind, pure, Except.pure]

theorem ofDocument_eq {d : Document} (h : Validation.Accepted d) (apart : ∀ c,
      Key.Apart (Validation.principalsOf (d.sectionEntries "limits") c).keys) :
    ofDocument d = .ok (accepted d) :=
  ofDocument_of_limits h (h.limits.limitsOf_eq apart)

/-- The merged document compiles to the blocks of its policy, if it is accepted. -/
theorem compile_of_validate (ho : override.DistinctKeys) (hd : defaults.DistinctKeys)
    (hvalid : (merged override defaults).validate = .ok ()) :
    compile override defaults realm =
      Rejection.ofFault ((accepted (merged override defaults)).blocks realm) := by
  have hresolve : resolve override defaults = .ok (accepted (merged override defaults)) := by
    show (do
      (merged override defaults).validate
      Rejection.ofFault (ofDocument (merged override defaults))) = _
    rw [hvalid, ofDocument_eq (Validation.accepted_of_validate hvalid) (apart_principalsOf ho hd)]
    rfl
  unfold compile
  rw [hresolve]
  rfl

theorem compile_eq_ok_iff (ho : override.DistinctKeys) (hd : defaults.DistinctKeys)
    {b : Blocks} : compile override defaults realm = .ok b ↔
      (merged override defaults).validate = .ok () ∧
        (accepted (merged override defaults)).blocks realm = .ok b := by
  constructor
  · intro h
    have hvalid : (merged override defaults).validate = .ok () := by
      cases hv : (merged override defaults).validate with
      | ok u => rfl
      | error r => simp [compile, resolve, hv, bind, Except.bind] at h
    rw [compile_of_validate ho hd hvalid] at h
    refine ⟨hvalid, ?_⟩
    cases hb : (accepted (merged override defaults)).blocks realm with
    | ok b' =>
      rw [hb] at h
      exact congrArg Except.ok (Except.ok.inj h)
    | error f =>
      rw [hb] at h
      cases h
  · rintro ⟨hvalid, hb⟩
    rw [compile_of_validate ho hd hvalid, hb]
    rfl

/-- An accepted document compiles, its limit block from what it grants. -/
theorem compile_eq (ho : override.DistinctKeys) (hd : defaults.DistinctKeys)
    (hrealm : realm = .null ∨ ∃ s, realm = .text s)
    (hvalid : (merged override defaults).validate = .ok ()) :
    ∃ auth, compile override defaults realm = Rejection.ofFault ((Directive.limitBlock
      (Validation.limitsOf (limitEntries override defaults))).map fun block => ⟨auth, block⟩) := by
  have hname : ∃ s, realm.orText Directive.defaultRealm = .text s := by
    rcases hrealm with rfl | ⟨s, rfl⟩
    · exact ⟨_, rfl⟩
    · unfold Document.orText
      split
      · exact ⟨s, rfl⟩
      · exact ⟨_, rfl⟩
  obtain ⟨auth, hauth⟩ :=
    (Validation.accepted_of_validate hvalid).methods.exists_authBlock hname
  refine ⟨auth, ?_⟩
  rw [compile_of_validate ho hd hvalid, blocks, accepted, hauth]
  show Rejection.ofFault (Directive.limitBlock
    (Validation.limitsOf (limitEntries override defaults)) >>= fun limits => pure _) = _
  cases Directive.limitBlock (Validation.limitsOf (limitEntries override defaults)) <;> rfl

/-- What compiles was accepted, and its limit block is made from what it grants. -/
theorem limitBlock_of_compile (ho : override.DistinctKeys) (hd : defaults.DistinctKeys)
    {b : Blocks} (h : compile override defaults realm = .ok b) :
    (merged override defaults).validate = .ok () ∧
      Directive.limitBlock (Validation.limitsOf (limitEntries override defaults)) =
        .ok b.limits := by
  obtain ⟨hvalid, hb⟩ := (compile_eq_ok_iff ho hd).1 h
  refine ⟨hvalid, ?_⟩
  rw [blocks, accepted] at hb
  cases ha : Directive.authBlock
    (Validation.methodsOf ((merged override defaults).sectionEntries "methods")) realm with
  | error f => simp [ha, bind, Except.bind] at hb
  | ok auth =>
    rw [limitEntries]
    cases hl : Directive.limitBlock
      (Validation.limitsOf ((merged override defaults).sectionEntries "limits")) with
    | error f => simp [ha, hl, bind, Except.bind] at hb
    | ok block =>
      simp only [ha, hl, bind, Except.bind, pure, Except.pure, Except.ok.injEq] at hb
      rw [← hb]

end Policy

end AccessPolicy
