import AccessPolicy.Proofs.Policy.Accepted

/-!
# The language of policies

What a policy is, said of the document alone : a grammar of its two sections, of the fields of
a method, of what a method that is on needs, and of the maps of principals
(`Document.IsPolicy`). It reads values where they stand, in no order.

`Document.validate_eq_ok_iff_isPolicy` : a document is accepted exactly when it is a policy.
Each stage of the validator is a part of the grammar (`shape_eq_none_iff`,
`methodsStage_eq_none_iff`, `limitsStage_eq_none_iff`).
-/

namespace AccessPolicy

/-! ## Values under names -/

/-- The key is one of the names. -/
def Key.IsOneOf (names : List Text) (key : Key) : Prop :=
  ∃ name ∈ names, key = .text name

theorem Key.isNamed_iff {names : List Text} {key : Key} :
    key.isNamed names = true ↔ key.IsOneOf names := by
  unfold isNamed
  split
  · next s =>
    rw [List.contains_iff_mem]
    refine ⟨fun hs => ⟨s, hs, rfl⟩, ?_⟩
    rintro ⟨name, hname, heq⟩
    cases heq
    exact hname
  · next hkey =>
    refine iff_of_false nofun ?_
    rintro ⟨name, -, heq⟩
    exact hkey name heq

namespace Entries

variable {es inner : Entries} {name : Text}

/-- A mapping with these entries stands under the name. -/
def Section (es : Entries) (name : Text) (inner : Entries) : Prop :=
  ∃ d, es.get? name = some d ∧ d.entries? = some inner

/-- What stands under the name is null or as described, if anything does. -/
def Optionally (es : Entries) (name : Text) (p : Document → Prop) : Prop :=
  ∀ d, es.get? name = some d → d = .null ∨ p d

theorem getD_eq_iff {d : Document} (hd : d ≠ .null) :
    es.getD name = d ↔ es.get? name = some d := by
  unfold getD
  cases es.get? name with
  | none => simpa using hd.symm
  | some v => simp

theorem getD_eq_text_iff {s : Text} :
    es.getD name = .text s ↔ es.get? name = some (.text s) :=
  getD_eq_iff (by simp)

theorem optionally_iff {p : Document → Prop} :
    es.Optionally name p ↔ es.getD name = .null ∨ p (es.getD name) := by
  unfold Optionally getD
  cases es.get? name with
  | none => simp
  | some v => simp

theorem Section.getD_entries? (h : es.Section name inner) :
    (es.getD name).entries? = some inner := by
  obtain ⟨d, hd, hinner⟩ := h
  rw [getD, hd, Option.getD_some, hinner]

theorem section_iff : es.Section name inner ↔ (es.getD name).entries? = some inner := by
  refine ⟨Section.getD_entries?, fun h => ?_⟩
  have hnull : es.getD name ≠ .null := by
    intro hnull
    rw [hnull] at h
    cases h
  exact ⟨es.getD name, (getD_eq_iff hnull).1 rfl, h⟩

theorem exists_section_iff : (∃ inner, es.Section name inner) ↔ (es.getD name).isMapping = true := by
  simp only [section_iff, Document.isMapping, Option.isSome_iff_exists]

end Entries

/-! ## The grammar -/

/-- The fields of a method, on or off. -/
structure MethodKind.IsConfig (kind : MethodKind) (config : Entries) : Prop where
  fields : ∀ e ∈ config, e.1.IsOneOf kind.fields
  enabled : ∀ d, config.get? "enabled" = some d → ∃ b, d = .bool b

/-- What the directives of the directory method need. -/
structure IsDirectoryConfig (config : Entries) : Prop where
  posixGroup : ∃ b, config.get? "posix_group" = some (.bool b)
  url : ∃ s, s ≠ [] ∧ config.get? "url" = some (.text s)
  bindDn : config.Optionally "bind_dn" fun d => ∃ s, d = .text s
  bindPassword : config.Optionally "bind_pw" fun d => ∃ s, d = .text s
  searchBase : config.Optionally "search_base" fun d => ∃ s, d = .text s
  security : ∀ d, config.get? "security" = some d →
    d.isGiven = false ∨ ∃ mode ∈ securityModes, d = .text mode

/-- The method has all that its directives need : of the file method, an absolute path. -/
def MethodKind.IsComplete : MethodKind → Entries → Prop
  | .file, config => ∃ rest, config.get? "user_file" = some (.text (.char '/' :: rest))
  | .ldap, config => IsDirectoryConfig config

/-- The methods of a policy. -/
structure IsMethods (methods : Entries) : Prop where
  kinds : ∀ e ∈ methods, ∃ (kind : MethodKind) (config : Entries), e.1 = .text kind.name ∧
    e.2.entries? = some config ∧ kind.IsConfig config
  complete : ∀ (kind : MethodKind) config, methods.Section kind.name config →
    config.get? "enabled" = some (.bool true) → kind.IsComplete config

open Validation (IsName IsOperationList PointsAtDefaults)

/-- The principals of a class with what they are granted. -/
def PrincipalClass.IsMap (c : PrincipalClass) (d : Document) : Prop :=
  ∃ es, d.entries? = some es ∧
    ∀ e ∈ es, IsName c e.1 ∧ (PointsAtDefaults e.2 ∨ IsOperationList e.2)

/-- The limits of a policy. -/
structure IsLimits (limits : Entries) : Prop where
  keys : ∀ e ∈ limits, e.1.IsOneOf limitNames
  principals : ∀ c : PrincipalClass, limits.Optionally c.name c.IsMap
  defaults : ∃ d, limits.get? "defaults" = some d ∧ IsOperationList d

/-- The document is a policy : a mapping with the two sections and nothing else. -/
def Document.IsPolicy (d : Document) : Prop :=
  ∃ es methods limits, d.entries? = some es ∧ (∀ e ∈ es, e.1.IsOneOf sectionNames) ∧
    es.Section "methods" methods ∧ IsMethods methods ∧
    es.Section "limits" limits ∧ IsLimits limits

namespace Validation

/-! ## Shape -/

theorem shape_eq_none_iff {d : Document} : shape d = none ↔
    ∃ es methods limits, d.entries? = some es ∧ (∀ e ∈ es, e.1.IsOneOf sectionNames) ∧
      es.Section "methods" methods ∧ es.Section "limits" limits := by
  unfold shape
  split
  · next es hes =>
    simp only [Option.or_eq_none_iff, List.findSome?_eq_none_iff, require_eq_none_iff,
      Key.isNamed_iff, ← Entries.exists_section_iff]
    constructor
    · rintro ⟨hkeys, hsections⟩
      obtain ⟨methods, hmethods⟩ := hsections "methods" (by decide)
      obtain ⟨limits, hlimits⟩ := hsections "limits" (by decide)
      exact ⟨es, methods, limits, hes, hkeys, hmethods, hlimits⟩
    · rintro ⟨_, methods, limits, hes', hkeys, hmethods, hlimits⟩
      obtain rfl := Option.some.inj (hes.symm.trans hes')
      refine ⟨hkeys, fun name hname => ?_⟩
      obtain rfl | rfl : name = "methods" ∨ name = "limits" := by
        simpa [sectionNames] using hname
      · exact ⟨methods, hmethods⟩
      · exact ⟨limits, hlimits⟩
  · next hes =>
    refine iff_of_false (Option.some_ne_none _) ?_
    rintro ⟨es, -, -, hes', -⟩
    cases hes.symm.trans hes'

theorem sectionEntries_eq {d : Document} {es inner : Entries} {name : Text}
    (hes : d.entries? = some es) (h : es.Section name inner) : d.sectionEntries name = inner := by
  rw [Document.sectionEntries, Document.entries_of_entries? hes,
    Document.entries_of_entries? h.getD_entries?]

/-! ## Methods -/

variable {methods config : Entries} {kind : MethodKind}

theorem kindOf?_eq_some_iff {key : Key} : kindOf? key = some kind ↔ key = .text kind.name := by
  refine ⟨fun h => ?_, fun h => h ▸ kindOf?_name kind⟩
  unfold kindOf? at h
  split at h
  · next s =>
    have hname : kind.name = s := by simpa using List.find?_some h
    rw [hname]
  · cases h

theorem methodFields_eq_none_iff_isConfig : methodFields kind config = none ↔
    kind.IsConfig config := by
  simp only [methodFields_eq_none_iff, Key.isNamed_iff]
  exact ⟨fun h => ⟨h.1, h.2⟩, fun h => ⟨h.fields, h.enabled⟩⟩

theorem isEnabled_iff_get? : isEnabled methods kind = true ↔
    (configOf methods kind).get? "enabled" = some (.bool true) := by
  rw [isEnabled_iff, Entries.getD_eq_iff (by simp)]

/-- An enabled method is there with `enabled` set to true. -/
theorem isEnabled_iff_section : isEnabled methods kind = true ↔
    methods.Section kind.name (configOf methods kind) ∧
      (configOf methods kind).get? "enabled" = some (.bool true) := by
  rw [isEnabled_iff_get?]
  refine ⟨fun h => ⟨?_, h⟩, And.right⟩
  rw [Entries.section_iff]
  cases hes : (methods.getD kind.name).entries? with
  | some es => rw [configOf, Document.entries_of_entries? hes]
  | none =>
    rw [configOf, Document.entries, hes] at h
    cases h

theorem forall_enabled_iff {p : Entries → Prop} :
    (isEnabled methods kind = true → p (configOf methods kind)) ↔
      ∀ config, methods.Section kind.name config →
        config.get? "enabled" = some (.bool true) → p config := by
  rw [isEnabled_iff_section]
  refine ⟨fun h config hconfig henabled => ?_, fun h hconfig => h _ hconfig.1 hconfig.2⟩
  obtain rfl : configOf methods kind = config :=
    Document.entries_of_entries? hconfig.getD_entries?
  exact h ⟨hconfig, henabled⟩

theorem userFile_iff : (∃ s, config.getD "user_file" = .text s ∧ s.head? = some (.char '/')) ↔
    MethodKind.file.IsComplete config := by
  simp only [Entries.getD_eq_text_iff]
  constructor
  · rintro ⟨s, hs, hhead⟩
    obtain ⟨rest, rfl⟩ := List.head?_eq_some_iff.1 hhead
    exact ⟨rest, hs⟩
  · rintro ⟨rest, hs⟩
    exact ⟨_, hs, rfl⟩

theorem optionalText_eq_none_iff_optionally {name : Text} : optionalText config name = none ↔
    config.Optionally name fun d => ∃ s, d = .text s := by
  rw [optionalText_eq_none_iff, Entries.optionally_iff]

theorem security_eq_none_iff_get? : security config = none ↔
    ∀ d, config.get? "security" = some d →
      d.isGiven = false ∨ ∃ mode ∈ securityModes, d = .text mode := by
  rw [security_eq_none_iff, Entries.getD]
  cases config.get? "security" with
  | none => exact iff_of_true (.inl rfl) nofun
  | some v => simp

theorem url_eq_none_iff_get? : url config = none ↔
    ∃ s, s ≠ [] ∧ config.get? "url" = some (.text s) := by
  simp only [url_eq_none_iff, Entries.getD_eq_text_iff, and_comm]

theorem isDirectoryConfig_iff : (posixGroup config = none ∧ url config = none ∧
    (∀ name ∈ optionalTexts, optionalText config name = none) ∧ security config = none) ↔
      MethodKind.ldap.IsComplete config := by
  simp only [posixGroup_eq_none_iff, url_eq_none_iff_get?, optionalText_eq_none_iff_optionally,
    security_eq_none_iff_get?, optionalTexts, List.forall_mem_cons]
  constructor
  · rintro ⟨hposix, hurl, ⟨hdn, hpw, hbase, -⟩, hsecurity⟩
    exact ⟨hposix, hurl, hdn, hpw, hbase, hsecurity⟩
  · intro h
    exact ⟨h.posixGroup, h.url,
      ⟨h.bindDn, h.bindPassword, h.searchBase, List.forall_mem_nil _⟩, h.security⟩

theorem methodsStage_eq_none_iff : methodsStage methods = none ↔ IsMethods methods := by
  simp only [methodsStage, methodKinds, Option.or_eq_none_iff, List.findSome?_eq_none_iff,
    method_eq_none_iff, kindOf?_eq_some_iff, methodFields_eq_none_iff_isConfig,
    fileMethod_eq_none_iff, userFile_iff, ldapMethod_eq_none_iff, isDirectoryConfig_iff,
    forall_enabled_iff (p := MethodKind.IsComplete _)]
  constructor
  · rintro ⟨hkinds, hfile, hldap⟩
    refine ⟨fun e he => ?_, fun kind => ?_⟩
    · obtain ⟨kind, hkey, config, hconfig, hfields⟩ := hkinds e he
      exact ⟨kind, config, hkey, hconfig, hfields⟩
    · cases kind with
      | file => exact hfile
      | ldap => exact hldap
  · intro h
    refine ⟨fun e he => ?_, h.complete .file, h.complete .ldap⟩
    obtain ⟨kind, config, hkey, hconfig, hfields⟩ := h.kinds e he
    exact ⟨kind, hkey, config, hconfig, hfields⟩

/-! ## Limits -/

variable {limits : Entries}

theorem IsOperationList.ne_null {d : Document} (h : IsOperationList d) : d ≠ .null := by
  rintro rfl
  obtain ⟨names, hitems, -⟩ := h
  cases hitems

theorem defaults_iff : IsOperationList (limits.getD "defaults") ↔
    ∃ d, limits.get? "defaults" = some d ∧ IsOperationList d := by
  constructor
  · intro h
    exact ⟨_, (Entries.getD_eq_iff h.ne_null).1 rfl, h⟩
  · rintro ⟨d, hd, h⟩
    rwa [(Entries.getD_eq_iff h.ne_null).2 hd]

/-- The map of a class, by its shape, its names and its grants. -/
theorem optionally_isMap_iff {c : PrincipalClass} : limits.Optionally c.name c.IsMap ↔
    (limits.getD c.name = .null ∨ (limits.getD c.name).isMapping = true) ∧
      ∀ e ∈ principalsOf limits c,
        IsName c e.1 ∧ (PointsAtDefaults e.2 ∨ IsOperationList e.2) := by
  rw [Entries.optionally_iff, principalsOf]
  generalize limits.getD c.name = d
  cases hes : d.entries? with
  | none =>
    have hnot : ¬ c.IsMap d := by
      rintro ⟨es, hes', -⟩
      cases hes.symm.trans hes'
    simp [Document.isMapping, Document.entries, hes, hnot]
  | some es =>
    have hnull : d ≠ .null := by
      rintro rfl
      cases hes
    simp [Document.isMapping, Document.entries, PrincipalClass.IsMap, hes, hnull]

theorem principalNames_eq_none_iff : principalNames limits = none ↔
    ∀ c, ∀ e ∈ principalsOf limits c, IsName c e.1 := by
  simp only [principalNames, Option.or_eq_none_iff, List.findSome?_eq_none_iff,
    hostName_eq_none_iff, userName_eq_none_iff, groupName_eq_none_iff]
  constructor
  · rintro ⟨hhosts, husers, hgroups⟩ c
    cases c with
    | hosts => exact hhosts
    | users => exact husers
    | ldapGroups => exact hgroups
  · intro h
    exact ⟨h .hosts, h .users, h .ldapGroups⟩

theorem limitsStage_eq_none_iff : limitsStage limits = none ↔ IsLimits limits := by
  simp only [limitsStage, limitKeys, operationSets, Option.or_eq_none_iff,
    List.findSome?_eq_none_iff, require_eq_none_iff, Key.isNamed_iff,
    principalShapes_eq_none_iff, principalNames_eq_none_iff, operationList_eq_none_iff,
    grant_eq_none_iff, defaults_iff]
  constructor
  · rintro ⟨hkeys, hshapes, hnames, hdefaults, hgrants⟩
    refine ⟨hkeys, fun c => optionally_isMap_iff.2 ⟨hshapes c, fun e he => ?_⟩, hdefaults⟩
    exact ⟨hnames c e he, hgrants c (PrincipalClass.mem_all c) e he⟩
  · intro h
    have hmap := fun c => optionally_isMap_iff.1 (h.principals c)
    exact ⟨h.keys, fun c => (hmap c).1, fun c e he => ((hmap c).2 e he).1, h.defaults,
      fun c _ e he => ((hmap c).2 e he).2⟩

end Validation

/-! ## The whole document -/

/-- A document is accepted exactly when it is a policy. -/
theorem Document.validate_eq_ok_iff_isPolicy {d : Document} :
    d.validate = .ok () ↔ d.IsPolicy := by
  rw [Validation.validate_eq_ok_iff_stages, Validation.shape_eq_none_iff,
    Validation.methodsStage_eq_none_iff, Validation.limitsStage_eq_none_iff]
  constructor
  · rintro ⟨⟨es, methods, limits, hes, hkeys, hm, hl⟩, hmethods, hlimits⟩
    rw [Validation.sectionEntries_eq hes hm] at hmethods
    rw [Validation.sectionEntries_eq hes hl] at hlimits
    exact ⟨es, methods, limits, hes, hkeys, hm, hmethods, hl, hlimits⟩
  · rintro ⟨es, methods, limits, hes, hkeys, hm, hmethods, hl, hlimits⟩
    refine ⟨⟨es, methods, limits, hes, hkeys, hm, hl⟩, ?_, ?_⟩
    · rwa [Validation.sectionEntries_eq hes hm]
    · rwa [Validation.sectionEntries_eq hes hl]

end AccessPolicy
