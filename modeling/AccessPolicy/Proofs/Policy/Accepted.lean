import AccessPolicy.Policy.Method
import AccessPolicy.Proofs.Document.Keys
import AccessPolicy.Proofs.Policy.Names

/-!
# Accepted documents

What holds of a document without a violation. `AcceptedLimits` lists it for the limits, as a
judgment on their entries; `AcceptedMethods` does for the methods. Both follow from the
stages of the validator (`acceptedLimits`, `acceptedMethods`), and `Accepted` puts them
together for the whole document (`accepted_of_validate`).
-/

namespace AccessPolicy

theorem PrincipalClass.mem_all (c : PrincipalClass) : c ∈ PrincipalClass.all := by
  cases c <;> decide

theorem MethodKind.name_injective {kind kind' : MethodKind} (h : kind.name = kind'.name) :
    kind = kind' := by
  cases kind with
  | file =>
    cases kind' with
    | file => rfl
    | ldap => exact absurd h (by decide)
  | ldap =>
    cases kind' with
    | file => exact absurd h (by decide)
    | ldap => rfl

theorem Document.entries_of_entries? {d : Document} {es : Entries} (h : d.entries? = some es) :
    d.entries = es := by
  rw [entries, h, Option.getD_some]

namespace Validation

theorem require_eq_none_iff {condition : Bool} {v : Violation} :
    require condition v = none ↔ condition = true := by
  cases condition <;> simp [require]

theorem require_eq_some_iff {condition : Bool} {v w : Violation} :
    require condition v = some w ↔ ¬ condition = true ∧ w = v := by
  cases condition <;> simp [require, eq_comm]

/-! ## Operations -/

/-- The document is a sequence of operations, at least one. -/
def IsOperationList (d : Document) : Prop :=
  ∃ names : List Text, d.items? = some (names.map Document.text) ∧ names ≠ [] ∧
    ∀ name ∈ names, name ∈ operations

theorem operation_eq_none_iff {place : GrantPlace} {d : Document} :
    operation place d = none ↔ ∃ name ∈ operations, d = .text name := by
  constructor
  · intro h
    unfold operation at h
    split at h
    · next s =>
      rw [require_eq_none_iff, List.contains_iff_mem] at h
      exact ⟨s, h, rfl⟩
    · cases h
  · rintro ⟨name, hname, rfl⟩
    exact require_eq_none_iff.2 (List.contains_iff_mem.2 hname)

theorem exists_names_of_operation {place : GrantPlace} : ∀ {items : List Document},
    (∀ d ∈ items, operation place d = none) →
      ∃ names : List Text, items = names.map Document.text ∧ ∀ name ∈ names, name ∈ operations
  | [], _ => ⟨[], rfl, by simp⟩
  | d :: items, h => by
    obtain ⟨name, hname, rfl⟩ := operation_eq_none_iff.1 (h d List.mem_cons_self)
    obtain ⟨names, rfl, hnames⟩ :=
      exists_names_of_operation fun d hd => h d (List.mem_cons_of_mem _ hd)
    exact ⟨name :: names, rfl, by simpa [hname] using hnames⟩

theorem operationList_eq_none_iff {place : GrantPlace} {d : Document} :
    operationList place d = none ↔ IsOperationList d := by
  constructor
  · intro h
    unfold operationList at h
    split at h
    · cases h
    · next items hne hitems =>
      rw [List.findSome?_eq_none_iff] at h
      obtain ⟨names, rfl, hnames⟩ := exists_names_of_operation h
      refine ⟨names, hitems, ?_, hnames⟩
      rintro rfl
      exact hne rfl
    · cases h
  · rintro ⟨names, hitems, hne, hnames⟩
    obtain ⟨name, rest, rfl⟩ := List.exists_cons_of_ne_nil hne
    rw [operationList, hitems, List.map_cons]
    refine List.findSome?_eq_none_iff.2 fun d hd => operation_eq_none_iff.2 ?_
    obtain ⟨op, hop, rfl⟩ := List.mem_map.1 (List.map_cons ▸ hd)
    exact ⟨op, hnames op hop, rfl⟩

/-- The value of a principal points at the defaults. -/
def PointsAtDefaults (d : Document) : Prop :=
  d = .null ∨ d = .text defaultsWord

theorem grant_eq_none_iff {place : GrantPlace} {d : Document} :
    grant place d = none ↔ PointsAtDefaults d ∨ IsOperationList d := by
  unfold grant
  split
  · exact iff_of_true rfl (.inl (.inl rfl))
  · next s =>
    split
    · next hs => exact iff_of_true rfl (.inl (.inr (congrArg Document.text hs)))
    · next hs =>
      rw [operationList_eq_none_iff]
      refine ⟨.inr, fun h => h.resolve_left ?_⟩
      rintro (hnull | htext)
      · cases hnull
      · cases htext
        exact hs rfl
  · next hnull htext =>
    rw [operationList_eq_none_iff]
    refine ⟨.inr, fun h => h.resolve_left ?_⟩
    rintro (rfl | rfl)
    · exact hnull rfl
    · exact htext _ rfl

/-! ## Limits -/

/-- The key is a text that may stand for a principal of the class. -/
def IsName : PrincipalClass → Key → Prop
  | .hosts, key => Address.isBlock key.shown = true
  | .users, key => ∃ s, key = .text s ∧ s ≠ [] ∧ ∀ c ∈ s, c.isPrintable = true ∧ c.isBlank = false
  | .ldapGroups, key =>
    ∃ s, key = .text s ∧ (∃ c ∈ s, c.isBlank = false) ∧ ∀ c ∈ s, c.isPrintable = true

/-- What the validator asks of the limits. -/
structure AcceptedLimits (limits : Entries) : Prop where
  keys : ∀ e ∈ limits, e.1.isNamed limitNames = true
  shapes : ∀ c : PrincipalClass, limits.getD c.name = .null ∨ (limits.getD c.name).isMapping = true
  names : ∀ c, ∀ e ∈ principalsOf limits c, IsName c e.1
  defaults : IsOperationList (limits.getD "defaults")
  grants : ∀ c, ∀ e ∈ principalsOf limits c, PointsAtDefaults e.2 ∨ IsOperationList e.2

theorem hostName_eq_none_iff {key : Key} : hostName key = none ↔ IsName .hosts key :=
  require_eq_none_iff

theorem userName_eq_none_iff {key : Key} : userName key = none ↔ IsName .users key := by
  unfold userName
  split
  · next s => simp [IsName, require_eq_none_iff, List.all_eq_true]
  · next hkey =>
    refine iff_of_false nofun ?_
    rintro ⟨s, hs, -⟩
    exact hkey s hs

theorem groupName_eq_none_iff {key : Key} : groupName key = none ↔ IsName .ldapGroups key := by
  unfold groupName
  split
  · next s => simp [IsName, require_eq_none_iff, List.all_eq_true]
  · next hkey =>
    refine iff_of_false nofun ?_
    rintro ⟨s, hs, -⟩
    exact hkey s hs

theorem principalShapes_eq_none_iff {limits : Entries} : principalShapes limits = none ↔
    ∀ c : PrincipalClass, limits.getD c.name = .null ∨
      (limits.getD c.name).isMapping = true := by
  rw [principalShapes, List.findSome?_eq_none_iff]
  refine ⟨fun h c => ?_, fun h c _ => ?_⟩
  · have hc := h c (PrincipalClass.mem_all c)
    split at hc
    · next hnull => exact .inl hnull
    · exact .inr (require_eq_none_iff.1 hc)
  · split
    · rfl
    · next hnull => exact require_eq_none_iff.2 ((h c).resolve_left hnull)

theorem acceptedLimits {limits : Entries} (h : limitsStage limits = none) :
    AcceptedLimits limits := by
  simp only [limitsStage, limitKeys, principalShapes_eq_none_iff, principalNames, operationSets,
    Option.or_eq_none_iff, List.findSome?_eq_none_iff, require_eq_none_iff,
    operationList_eq_none_iff, grant_eq_none_iff] at h
  obtain ⟨hkeys, hshapes, ⟨hhosts, husers, hgroups⟩, hdefaults, hgrants⟩ := h
  refine ⟨hkeys, hshapes, fun c e he => ?_, hdefaults,
    fun c => hgrants c (PrincipalClass.mem_all c)⟩
  cases c with
  | hosts => exact hostName_eq_none_iff.1 (hhosts e he)
  | users => exact userName_eq_none_iff.1 (husers e he)
  | ldapGroups => exact groupName_eq_none_iff.1 (hgroups e he)

theorem IsName.exists_text {c : PrincipalClass} {key : Key} (h : IsName c key) :
    ∃ s, key = .text s := by
  cases c with
  | hosts => exact exists_text_of_isBlock h
  | users =>
    obtain ⟨s, hs, -⟩ := h
    exact ⟨s, hs⟩
  | ldapGroups =>
    obtain ⟨s, hs, -⟩ := h
    exact ⟨s, hs⟩

/-- The name of a user or a group has no control characters. -/
theorem IsName.isControl {c : PrincipalClass} (hc : c ≠ .hosts) {key : Key} (h : IsName c key) :
    ∀ p ∈ key.shown, p.isControl = false := by
  cases c with
  | hosts => exact absurd rfl hc
  | users =>
    obtain ⟨s, rfl, -, hs⟩ := h
    exact fun p hp => CodePoint.isControl_of_isPrintable (hs p hp).1
  | ldapGroups =>
    obtain ⟨s, rfl, -, hs⟩ := h
    exact fun p hp => CodePoint.isControl_of_isPrintable (hs p hp)

/-! ## Methods -/

/-- The fields of a method of this kind that its directives show. -/
def textFields : MethodKind → List Text
  | .file => ["user_file"]
  | .ldap => ["url", "security", "bind_dn", "bind_pw", "search_base"]

/-- What the validator asks of the methods : mappings whose `enabled` is a truth value, and
of those that are enabled, texts and a truth value for the way members are named. -/
structure AcceptedMethods (methods : Entries) : Prop where
  shapes : ∀ e ∈ methods, ∃ es, e.2.entries? = some es ∧
    ∀ v, es.get? "enabled" = some v → ∃ b, v = .bool b
  texts : ∀ kind, isEnabled methods kind = true → ∀ name ∈ textFields kind,
    ∃ s, (configOf methods kind).textField name = .text s
  posixGroup : isEnabled methods .ldap = true →
    ∃ b, (configOf methods .ldap).flag "posix_group" = .bool b

theorem exists_orText_of_text {d : Document} {s : Text} (h : d = .text s) :
    ∃ s', d.orText "" = .text s' := by
  subst h
  unfold Document.orText
  split
  · exact ⟨s, rfl⟩
  · exact ⟨_, rfl⟩

theorem exists_orText_of_not_given {d : Document} (h : d.isGiven = false) :
    ∃ s, d.orText "" = .text s :=
  ⟨"", by simp [Document.orText, h]⟩

theorem kindOf?_name (kind : MethodKind) : kindOf? (.text kind.name) = some kind := by
  cases kind <;> decide

theorem isEnabled_iff {methods : Entries} {kind : MethodKind} : isEnabled methods kind = true ↔
    (configOf methods kind).getD "enabled" = .bool true := by
  unfold isEnabled
  split
  · next b hb => simp [hb]
  · next hb => exact iff_of_false nofun (hb true)

theorem isBool_iff {d : Document} : d.isBool = true ↔ ∃ b, d = .bool b := by
  constructor
  · intro h
    unfold Document.isBool at h
    split at h
    · exact ⟨_, rfl⟩
    · cases h
  · rintro ⟨b, rfl⟩
    rfl

theorem methodFields_eq_none_iff {kind : MethodKind} {config : Entries} :
    methodFields kind config = none ↔ (∀ e ∈ config, e.1.isNamed kind.fields = true) ∧
      ∀ v, config.get? "enabled" = some v → ∃ b, v = .bool b := by
  rw [methodFields, Option.or_eq_none_iff, List.findSome?_eq_none_iff]
  refine and_congr (forall₂_congr fun _ _ => require_eq_none_iff) ?_
  cases config.get? "enabled" with
  | none => simp
  | some v => simp [require_eq_none_iff, isBool_iff]

theorem method_eq_none_iff {key : Key} {d : Document} : method key d = none ↔
    ∃ kind, kindOf? key = some kind ∧
      ∃ es, d.entries? = some es ∧ methodFields kind es = none := by
  unfold method
  split
  · next hkind => simp [hkind]
  · next kind hkind =>
    split
    · next es hes => simp [hkind, hes]
    · next hes => simp [hkind, hes]

theorem fileMethod_eq_none_iff {methods : Entries} : fileMethod methods = none ↔
    (isEnabled methods .file = true → ∃ s, (configOf methods .file).getD "user_file" = .text s ∧
      s.head? = some (.char '/')) := by
  unfold fileMethod
  split
  · next henabled =>
    simp only [henabled, forall_const]
    split
    · next s hs =>
      simp only [hs, Option.or_eq_none_iff, require_eq_none_iff, beq_iff_eq]
      refine ⟨fun h => ⟨s, rfl, h.2⟩, ?_⟩
      rintro ⟨s', hs', hhead⟩
      cases hs'
      cases s with
      | nil => cases hhead
      | cons c s => exact ⟨rfl, hhead⟩
    · next hs =>
      refine iff_of_false nofun ?_
      rintro ⟨s, hs', -⟩
      exact hs s hs'
  · next henabled => simp [henabled]

theorem url_eq_none_iff {config : Entries} :
    url config = none ↔ ∃ s, config.getD "url" = .text s ∧ s ≠ [] := by
  unfold url
  split
  · next s hs => simp [hs, require_eq_none_iff]
  · next hs =>
    refine iff_of_false nofun ?_
    rintro ⟨s, hs', -⟩
    exact hs s hs'

theorem optionalText_eq_none_iff {config : Entries} {name : Text} :
    optionalText config name = none ↔
      config.getD name = .null ∨ ∃ s, config.getD name = .text s := by
  unfold optionalText
  split
  · next hnull => exact iff_of_true rfl (.inl hnull)
  · next s hs => exact iff_of_true rfl (.inr ⟨s, hs⟩)
  · next hnull htext =>
    refine iff_of_false nofun ?_
    rintro (h | ⟨s, h⟩)
    · exact hnull h
    · exact htext s h

theorem security_eq_none_iff {config : Entries} : security config = none ↔
    (config.getD "security").isGiven = false ∨
      ∃ s ∈ securityModes, config.getD "security" = .text s := by
  unfold security
  split
  · next s hs =>
    rw [hs, require_eq_none_iff, Bool.or_eq_true, List.contains_iff_mem]
    refine or_congr ?_ ?_
    · simp [Document.isGiven, Document.layer]
    · simp
  · next htext =>
    rw [require_eq_none_iff, Bool.not_eq_true']
    refine ⟨.inl, fun h => h.resolve_right ?_⟩
    rintro ⟨s, -, hs⟩
    exact htext s hs

theorem posixGroup_eq_none_iff {config : Entries} :
    posixGroup config = none ↔ ∃ b, config.get? "posix_group" = some (.bool b) := by
  unfold posixGroup
  split
  · next hnone => simp [hnone]
  · next v hv => simp [hv, require_eq_none_iff, isBool_iff]

theorem ldapMethod_eq_none_iff {methods : Entries} : ldapMethod methods = none ↔
    (isEnabled methods .ldap = true → posixGroup (configOf methods .ldap) = none ∧
      url (configOf methods .ldap) = none ∧
      (∀ name ∈ optionalTexts, optionalText (configOf methods .ldap) name = none) ∧
      security (configOf methods .ldap) = none) := by
  unfold ldapMethod
  split
  · next henabled =>
    simp only [henabled, forall_const, Option.or_eq_none_iff, List.findSome?_eq_none_iff]
  · next henabled => simp [henabled]

theorem exists_orText_of_optional {d : Document} (h : d = .null ∨ ∃ s, d = .text s) :
    ∃ s, d.orText "" = .text s := by
  rcases h with rfl | ⟨s, rfl⟩
  · exact exists_orText_of_not_given rfl
  · exact exists_orText_of_text rfl

theorem exists_text_of_ldapMethod {methods : Entries} (h : ldapMethod methods = none)
    (henabled : isEnabled methods .ldap = true) : ∀ name ∈ textFields .ldap,
      ∃ s, (configOf methods .ldap).textField name = .text s := by
  obtain ⟨-, hurl, hoptional, hsecurity⟩ := ldapMethod_eq_none_iff.1 h henabled
  intro name hname
  simp only [textFields, List.mem_cons, List.not_mem_nil, or_false] at hname
  rcases hname with rfl | rfl | hname
  · obtain ⟨s, hs, -⟩ := url_eq_none_iff.1 hurl
    exact exists_orText_of_text hs
  · rcases security_eq_none_iff.1 hsecurity with hgiven | ⟨s, -, hs⟩
    · exact exists_orText_of_not_given hgiven
    · exact exists_orText_of_text hs
  · exact exists_orText_of_optional
      (optionalText_eq_none_iff.1 (hoptional name (by simpa [optionalTexts] using hname)))

theorem acceptedMethods {methods : Entries} (h : methodsStage methods = none) :
    AcceptedMethods methods := by
  simp only [methodsStage, Option.or_eq_none_iff, methodKinds, List.findSome?_eq_none_iff] at h
  obtain ⟨hkinds, hfile, hldap⟩ := h
  refine ⟨fun e he => ?_, fun kind henabled name hname => ?_, fun henabled => ?_⟩
  · obtain ⟨kind, -, es, hes, hfields⟩ := method_eq_none_iff.1 (hkinds e he)
    exact ⟨es, hes, (methodFields_eq_none_iff.1 hfields).2⟩
  · cases kind with
    | file =>
      obtain rfl : name = "user_file" := by simpa [textFields] using hname
      obtain ⟨s, hs, -⟩ := fileMethod_eq_none_iff.1 hfile henabled
      exact exists_orText_of_text hs
    | ldap => exact exists_text_of_ldapMethod hldap henabled name hname
  · obtain ⟨b, hb⟩ := posixGroup_eq_none_iff.1 (ldapMethod_eq_none_iff.1 hldap henabled).1
    exact ⟨b, by rw [Entries.flag, hb]; rfl⟩

/-! ## Documents -/

/-- What the validator asks of a document. -/
structure Accepted (d : Document) : Prop where
  root : d.isMapping = true
  sections : ∀ name ∈ sectionNames, (d.entries.getD name).isMapping = true
  methods : AcceptedMethods (d.sectionEntries "methods")
  limits : AcceptedLimits (d.sectionEntries "limits")

theorem validate_eq_ok_iff {d : Document} :
    d.validate = .ok () ↔ d.violation?.isNone = true := by
  unfold Document.validate
  cases d.violation? <;> simp

theorem validate_eq_ok_iff_stages {d : Document} : d.validate = .ok () ↔ shape d = none ∧
    methodsStage (d.sectionEntries "methods") = none ∧
      limitsStage (d.sectionEntries "limits") = none := by
  rw [validate_eq_ok_iff, Option.isNone_iff_eq_none, Document.violation?, Option.or_eq_none_iff,
    Option.or_eq_none_iff]

theorem accepted_of_validate {d : Document} (h : d.validate = .ok ()) : Accepted d := by
  obtain ⟨hshape, hmethods, hlimits⟩ := validate_eq_ok_iff_stages.1 h
  unfold shape at hshape
  split at hshape
  · next es hes =>
    simp only [Option.or_eq_none_iff, List.findSome?_eq_none_iff, require_eq_none_iff] at hshape
    have hentries : d.entries = es := by simp [Document.entries, hes]
    exact ⟨by simp [Document.isMapping, hes], by simpa [hentries] using hshape.2,
      acceptedMethods hmethods, acceptedLimits hlimits⟩
  · cases hshape

end Validation

end AccessPolicy
