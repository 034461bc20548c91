import AccessPolicy.Proofs.Directive.Limit
import AccessPolicy.Proofs.Document.Spelling

/-!
# Compiling does not depend on order

Documents that differ in order and in the spelling of keys only (`Document.Akin`) are accepted
alike, stage by stage (`Validation.violation?_alike`). The methods of accepted ones are equal
where they are enabled, and the principals of each class the same in another order; the limit
block orders them by name, so the blocks are equal (`Policy.blocks_alike`). Which violation is
reported first does depend on order.

`Policy.compile_reordered` : overrides and defaults that differ in order only compile to the
same blocks, or none of them compiles.
-/

namespace AccessPolicy

open Document (SameUpToOrder)

/-! ## Fields -/

namespace Document.Akin

variable {x : Position} {d d' : Document}

theorem scalar_iff (h : d.Akin x d') {s : Scalar} : d = .scalar s ↔ d' = .scalar s :=
  h.same.scalar_iff

theorem orText_eq (h : d.Akin x d') {t : Text} (htext : ∃ s, d.orText t = .text s) :
    d.orText t = d'.orText t := by
  unfold Document.orText at htext ⊢
  rw [← h.same.isGiven_eq]
  split at htext
  · next hgiven =>
    obtain ⟨s, rfl⟩ := htext
    rw [if_pos hgiven, if_pos hgiven, h.same.eq_scalar]
  · next hgiven => rw [if_neg hgiven, if_neg hgiven]

end Document.Akin

namespace Entries.Akin

variable {x : Position} {es fs : Entries}

/-- What holds of texts only, and of all keys, holds of all keys of akin entries. -/
theorem forall_keys (h : Akin x es fs) {p : Key → Prop} (htext : ∀ k, p k → ∃ s, k = .text s)
    (hes : ∀ e ∈ es, p e.1) : ∀ f ∈ fs, p f.1 := by
  refine h.forall_entries (p := fun k _ => p k) (fun {k} _ _ _ hnames _ hk => ?_) hes
  obtain ⟨s, rfl⟩ := htext k hk
  exact hnames.eq_text ▸ hk

theorem forall_named (h : Akin x es fs) {names : List Text}
    (hes : ∀ e ∈ es, e.1.isNamed names = true) : ∀ f ∈ fs, f.1.isNamed names = true :=
  h.forall_entries (p := fun k _ => k.isNamed names = true)
    (fun hnames _ hk => hnames.isNamed_eq names ▸ hk) hes

theorem get?_scalar (h : Akin x es fs) {name : Text} {s : Scalar}
    (hs : es.get? name = some (.scalar s)) : fs.get? name = some (.scalar s) := by
  have hrel := h.get? name
  rw [hs] at hrel
  generalize fs.get? name = v' at hrel
  cases hrel with
  | some hv => rw [hv.same.eq_scalar]

theorem get?_eq_none_iff (h : Akin x es fs) {name : Text} :
    es.get? name = none ↔ fs.get? name = none := by
  have hsome : (es.get? name).isSome = (fs.get? name).isSome := h.has_eq (.text name)
  rw [← Option.not_isSome_iff_eq_none, ← Option.not_isSome_iff_eq_none, hsome]

theorem textField_eq (h : Akin x es fs) {name : Text}
    (htext : ∃ s, es.textField name = .text s) : es.textField name = fs.textField name :=
  (h.getD name).orText_eq htext

theorem flag_eq (h : Akin x es fs) {name : Text} (hbool : ∃ b, es.flag name = .bool b) :
    es.flag name = fs.flag name := by
  obtain ⟨b, hb⟩ := hbool
  unfold Entries.flag at hb ⊢
  cases hv : es.get? name with
  | none => rw [h.get?_eq_none_iff.1 hv]
  | some v =>
    rw [hv, Option.getD_some] at hb
    subst hb
    rw [h.get?_scalar hv]

end Entries.Akin

namespace Validation

/-! ## Acceptance of methods -/

section Methods

variable {x : Position} {methods methods' config config' : Entries}

theorem configOf_alike (h : methods.Akin x methods') (kind : MethodKind) :
    (configOf methods kind).Akin (x.below (.text kind.name)) (configOf methods' kind) :=
  (h.getD kind.name).entries

theorem isEnabled_alike (h : methods.Akin x methods') (kind : MethodKind) :
    isEnabled methods kind = isEnabled methods' kind := by
  rw [Bool.eq_iff_iff, isEnabled_iff, isEnabled_iff]
  exact ((configOf_alike h kind).getD "enabled").scalar_iff

theorem methodFields_alike {kind : MethodKind} (h : config.Akin x config')
    (hc : methodFields kind config = none) : methodFields kind config' = none := by
  obtain ⟨hkeys, henabled⟩ := methodFields_eq_none_iff.1 hc
  refine methodFields_eq_none_iff.2
    ⟨h.forall_named hkeys, fun v' hv' => ?_⟩
  cases hv : config.get? "enabled" with
  | none =>
    rw [h.get?_eq_none_iff.1 hv] at hv'
    cases hv'
  | some v =>
    obtain ⟨b, rfl⟩ := henabled v hv
    rw [h.get?_scalar hv] at hv'
    exact ⟨b, (Option.some.inj hv').symm⟩

theorem exists_text_of_kindOf? {key : Key} {kind : MethodKind} (h : kindOf? key = some kind) :
    ∃ s, key = .text s := by
  unfold kindOf? at h
  split at h
  · next s => exact ⟨s, rfl⟩
  · cases h

theorem methodKinds_alike (h : methods.Akin x methods') (hm : methodKinds methods = none) :
    methodKinds methods' = none := by
  unfold methodKinds at hm ⊢
  rw [List.findSome?_eq_none_iff] at hm ⊢
  refine h.forall_entries (p := fun k d => method k d = none)
    (fun {k k' v v'} hnames hv hmethod => ?_) hm
  obtain ⟨kind, hkind, es, hes, hfields⟩ := method_eq_none_iff.1 hmethod
  obtain ⟨fs, hfs, hentries⟩ := hv.exists_entries? hes
  refine method_eq_none_iff.2 ⟨kind, ?_, fs, hfs, methodFields_alike hentries hfields⟩
  obtain ⟨s, rfl⟩ := exists_text_of_kindOf? hkind
  rw [hnames.eq_text, hkind]

theorem fileMethod_alike (h : methods.Akin x methods') (hm : fileMethod methods = none) :
    fileMethod methods' = none := by
  refine fileMethod_eq_none_iff.2 fun henabled => ?_
  obtain ⟨s, hs, habsolute⟩ :=
    fileMethod_eq_none_iff.1 hm (isEnabled_alike h .file ▸ henabled)
  exact ⟨s, ((configOf_alike h .file).getD _).scalar_iff.1 hs, habsolute⟩

theorem posixGroup_alike (h : config.Akin x config') (hc : posixGroup config = none) :
    posixGroup config' = none := by
  obtain ⟨b, hb⟩ := posixGroup_eq_none_iff.1 hc
  exact posixGroup_eq_none_iff.2 ⟨b, h.get?_scalar hb⟩

theorem url_alike (h : config.Akin x config') (hc : url config = none) :
    url config' = none := by
  obtain ⟨s, hs, hne⟩ := url_eq_none_iff.1 hc
  exact url_eq_none_iff.2 ⟨s, (h.getD _).scalar_iff.1 hs, hne⟩

theorem optionalText_alike (h : config.Akin x config') {name : Text}
    (hc : optionalText config name = none) : optionalText config' name = none := by
  refine optionalText_eq_none_iff.2 ((optionalText_eq_none_iff.1 hc).imp ?_ ?_)
  · exact (h.getD name).scalar_iff.1
  · rintro ⟨s, hs⟩
    exact ⟨s, (h.getD name).scalar_iff.1 hs⟩

theorem security_alike (h : config.Akin x config') (hc : security config = none) :
    security config' = none := by
  refine security_eq_none_iff.2 ((security_eq_none_iff.1 hc).imp ?_ ?_)
  · rw [(h.getD "security").same.isGiven_eq]
    exact id
  · rintro ⟨s, hmode, hs⟩
    exact ⟨s, hmode, (h.getD _).scalar_iff.1 hs⟩

theorem ldapMethod_alike (h : methods.Akin x methods') (hm : ldapMethod methods = none) :
    ldapMethod methods' = none := by
  refine ldapMethod_eq_none_iff.2 fun henabled => ?_
  obtain ⟨hposix, hurl, hoptional, hsecurity⟩ :=
    ldapMethod_eq_none_iff.1 hm (isEnabled_alike h .ldap ▸ henabled)
  have hconfig := configOf_alike h .ldap
  exact ⟨posixGroup_alike hconfig hposix, url_alike hconfig hurl,
    fun name hname => optionalText_alike hconfig (hoptional name hname),
    security_alike hconfig hsecurity⟩

theorem methodsStage_alike (h : methods.Akin x methods') (hm : methodsStage methods = none) :
    methodsStage methods' = none := by
  simp only [methodsStage, Option.or_eq_none_iff] at hm ⊢
  exact ⟨methodKinds_alike h hm.1, fileMethod_alike h hm.2.1, ldapMethod_alike h hm.2.2⟩

end Methods

/-! ## Acceptance of limits -/

section Limits

variable {limits limits' : Entries} {d d' : Document}

theorem isOperationList_alike (h : d.Akin .operations d') (hd : IsOperationList d) :
    IsOperationList d' := by
  obtain ⟨names, hitems, hne, hnames⟩ := hd
  obtain ⟨items', hitems', hleft, hright⟩ := h.same.exists_items? hitems
  obtain ⟨names', rfl, hnames'⟩ : ∃ names' : List Text, items' = names'.map Document.text ∧
      ∀ name ∈ names', name ∈ operations := by
    refine @exists_names_of_operation .defaults _ fun b hb => ?_
    obtain ⟨a, ha, hab⟩ := hright b hb
    obtain ⟨name, hname, rfl⟩ := List.mem_map.1 ha
    exact operation_eq_none_iff.2 ⟨name, hnames name hname, hab.eq_scalar⟩
  refine ⟨names', hitems', ?_, hnames'⟩
  rintro rfl
  obtain ⟨name, hname⟩ := List.exists_mem_of_ne_nil _ hne
  obtain ⟨b, hb, -⟩ := hleft _ (List.mem_map_of_mem hname)
  cases hb

theorem pointsAtDefaults_alike {x : Position} (h : d.Akin x d') :
    PointsAtDefaults d ↔ PointsAtDefaults d' :=
  or_congr h.scalar_iff h.scalar_iff

theorem principalsOf_alike (h : limits.Akin .limits limits') (c : PrincipalClass) :
    (principalsOf limits c).Akin .principals (principalsOf limits' c) := by
  have hbelow : Position.below .limits (.text c.name) = .principals := by cases c <;> rfl
  exact hbelow ▸ (h.getD c.name).entries

theorem defaults_alike (h : limits.Akin .limits limits') :
    (limits.getD "defaults").Akin .operations (limits'.getD "defaults") :=
  h.getD "defaults"

theorem principalShapes_alike (h : limits.Akin .limits limits')
    (hl : principalShapes limits = none) : principalShapes limits' = none := by
  refine principalShapes_eq_none_iff.2 fun c => ?_
  refine (principalShapes_eq_none_iff.1 hl c).imp (h.getD c.name).scalar_iff.1 ?_
  rw [(h.getD c.name).same.isMapping_eq]
  exact id

theorem principalNames_alike (h : limits.Akin .limits limits')
    (hl : principalNames limits = none) : principalNames limits' = none := by
  simp only [principalNames, Option.or_eq_none_iff, List.findSome?_eq_none_iff] at hl ⊢
  obtain ⟨hhosts, husers, hgroups⟩ := hl
  exact ⟨(principalsOf_alike h .hosts).forall_keys (p := fun k => hostName k = none)
      (fun _ hk => (hostName_eq_none_iff.1 hk).exists_text) hhosts,
    (principalsOf_alike h .users).forall_keys (p := fun k => userName k = none)
      (fun _ hk => (userName_eq_none_iff.1 hk).exists_text) husers,
    (principalsOf_alike h .ldapGroups).forall_keys (p := fun k => groupName k = none)
      (fun _ hk => (groupName_eq_none_iff.1 hk).exists_text) hgroups⟩

theorem operationSets_alike (h : limits.Akin .limits limits')
    (hl : operationSets limits = none) : operationSets limits' = none := by
  simp only [operationSets, Option.or_eq_none_iff, List.findSome?_eq_none_iff,
    operationList_eq_none_iff, grant_eq_none_iff] at hl ⊢
  refine ⟨isOperationList_alike (defaults_alike h) hl.1, fun c hc => ?_⟩
  exact (principalsOf_alike h c).forall_entries
    (p := fun _ d => PointsAtDefaults d ∨ IsOperationList d)
    (fun _ hv => Or.imp (pointsAtDefaults_alike hv).1 (isOperationList_alike hv)) (hl.2 c hc)

theorem limitsStage_alike (h : limits.Akin .limits limits') (hl : limitsStage limits = none) :
    limitsStage limits' = none := by
  simp only [limitsStage, limitKeys, Option.or_eq_none_iff, List.findSome?_eq_none_iff,
    require_eq_none_iff] at hl ⊢
  exact ⟨h.forall_named hl.1, principalShapes_alike h hl.2.1, principalNames_alike h hl.2.2.1,
    operationSets_alike h hl.2.2.2⟩

end Limits

/-! ## Acceptance of documents -/

section Documents

variable {d d' : Document}

theorem shape_alike (h : d.Akin .policy d') (hd : shape d = none) : shape d' = none := by
  unfold shape at hd ⊢
  split at hd
  · next es hes =>
    obtain ⟨fs, hfs, hentries⟩ := h.exists_entries? hes
    simp only [hfs, Option.or_eq_none_iff, List.findSome?_eq_none_iff,
      require_eq_none_iff] at hd ⊢
    refine ⟨hentries.forall_named hd.1, fun name hname => ?_⟩
    rw [← (hentries.getD name).same.isMapping_eq]
    exact hd.2 name hname
  · cases hd

theorem sectionEntries_alike (h : d.Akin .policy d') (name : Text) :
    (d.sectionEntries name).Akin (Position.below .policy (.text name))
      (d'.sectionEntries name) :=
  (h.entries.getD name).entries

theorem violation?_alike (h : d.Akin .policy d') (hd : d.violation? = none) :
    d'.violation? = none := by
  simp only [Document.violation?, Option.or_eq_none_iff] at hd ⊢
  exact ⟨shape_alike h hd.1, methodsStage_alike (sectionEntries_alike h "methods") hd.2.1,
    limitsStage_alike (sectionEntries_alike h "limits") hd.2.2⟩

theorem validate_alike (h : d.Akin .policy d') :
    d.validate = .ok () ↔ d'.validate = .ok () := by
  simp only [validate_eq_ok_iff, Option.isNone_iff_eq_none]
  exact ⟨violation?_alike h, violation?_alike h.symm⟩

end Documents

/-! ## Methods -/

/-- Both are there or neither is, and those that are kept are equal. -/
theorem filter_map_congr {α β : Type} {v v' : Option α} {m m' : β} {p : β → Bool}
    (hv : v = none ↔ v' = none) (hp : ∀ d, v = some d → p m = p m')
    (hm : ∀ d, v = some d → p m = true → m = m') :
    (v.map fun _ => m).filter p = (v'.map fun _ => m').filter p := by
  cases hd : v with
  | none =>
    rw [hv.1 hd]
    rfl
  | some d =>
    obtain ⟨d', rfl⟩ : ∃ d', v' = some d' := by
      refine Option.ne_none_iff_exists'.1 fun hnone => ?_
      rw [hv.2 hnone] at hd
      cases hd
    rw [Option.map_some, Option.map_some]
    by_cases hkept : p m = true
    · rw [hm d hd hkept]
    · have hleft : p m = false := Bool.eq_false_iff.2 hkept
      rw [Option.filter_some_neg hleft, Option.filter_some_neg (hp d hd ▸ hleft)]

namespace AcceptedMethods

variable {x : Position} {methods methods' : Entries} (hm : AcceptedMethods methods)
  (h : methods.Akin x methods')

include hm h

theorem enabled_eq (kind : MethodKind) {d : Document} (hd : methods.get? kind.name = some d) :
    (configOf methods kind).flag "enabled" = (configOf methods' kind).flag "enabled" := by
  refine (configOf_alike h kind).flag_eq ?_
  unfold Entries.flag
  cases hv : (configOf methods kind).get? "enabled" with
  | none => exact ⟨false, rfl⟩
  | some v => exact (hm.entries?_of_get? kind hd).2 v hv

/-- Enabled methods of either kind are equal. -/
theorem file_alike : (methodsOf methods).file.filter (fun m => m.enabled.isGiven) =
    (methodsOf methods').file.filter fun m => m.enabled.isGiven := by
  refine filter_map_congr h.get?_eq_none_iff (fun d hd => ?_) fun d hd hgiven => ?_
  · exact congrArg Document.isGiven (hm.enabled_eq h .file hd)
  · have htexts := hm.texts .file (hm.isEnabled_of_isGiven .file hd hgiven)
    rw [FileMethod.ofEntries, FileMethod.ofEntries, hm.enabled_eq h .file hd,
      (configOf_alike h .file).textField_eq (htexts _ List.mem_cons_self)]

theorem ldap_alike : (methodsOf methods).ldap.filter (fun m => m.enabled.isGiven) =
    (methodsOf methods').ldap.filter fun m => m.enabled.isGiven := by
  refine filter_map_congr h.get?_eq_none_iff (fun d hd => ?_) fun d hd hgiven => ?_
  · exact congrArg Document.isGiven (hm.enabled_eq h .ldap hd)
  · have henabled := hm.isEnabled_of_isGiven .ldap hd hgiven
    have htext : ∀ name ∈ textFields .ldap, (configOf methods .ldap).textField name =
        (configOf methods' .ldap).textField name := fun name hname =>
      (configOf_alike h .ldap).textField_eq (hm.texts .ldap henabled name hname)
    rw [LdapMethod.ofEntries, LdapMethod.ofEntries, hm.enabled_eq h .ldap hd,
      htext "url" (by simp [textFields]), htext "security" (by simp [textFields]),
      htext "bind_dn" (by simp [textFields]), htext "bind_pw" (by simp [textFields]),
      htext "search_base" (by simp [textFields]),
      (configOf_alike h .ldap).flag_eq (hm.posixGroup henabled)]

theorem authBlock_alike (realm : Document) : Directive.authBlock (methodsOf methods) realm =
    Directive.authBlock (methodsOf methods') realm := by
  simp only [Directive.authBlock, Directive.authLines, hm.file_alike h, hm.ldap_alike h]

end AcceptedMethods

/-! ## Grants -/

section Grants

variable {limits limits' : Entries} {d d' : Document}

theorem mem_listed_iff {op : Text} : op ∈ listed d ↔
    ∃ items, d.items? = some items ∧ Document.text op ∈ items := by
  have text?_iff : ∀ {a : Document}, a.text? = some op ↔ a = .text op := by
    intro a
    unfold Document.text?
    split
    · simp
    · next htext => exact iff_of_false nofun (htext op)
  unfold listed
  cases d.items? with
  | none => simp
  | some items => simp [text?_iff]

theorem mem_listed_alike (h : d.Akin .operations d') {op : Text} (hop : op ∈ listed d) :
    op ∈ listed d' := by
  obtain ⟨items, hitems, hmem⟩ := mem_listed_iff.1 hop
  obtain ⟨items', hitems', hleft, -⟩ := h.same.exists_items? hitems
  obtain ⟨b, hb, hab⟩ := hleft _ hmem
  obtain rfl := hab.eq_scalar
  exact mem_listed_iff.2 ⟨items', hitems', hb⟩

theorem canonical_listed (h : d.Akin .operations d') :
    Operations.canonical (listed d) = Operations.canonical (listed d') :=
  Operations.canonical_congr fun _ => ⟨mem_listed_alike h, mem_listed_alike h.symm⟩

theorem granted_of_not_pointsAtDefaults (hd : ¬PointsAtDefaults d) :
    granted limits d = listed d := by
  unfold granted
  split
  · exact absurd (.inl rfl) hd
  · next s =>
    split
    · next hs => exact absurd (.inr (congrArg Document.text hs)) hd
    · rfl
  · rfl

theorem canonical_granted (h : limits.Akin .limits limits') (hd : d.Akin .operations d') :
    Operations.canonical (granted limits d) = Operations.canonical (granted limits' d') := by
  by_cases hpoints : PointsAtDefaults d
  · rw [granted_of_pointsAtDefaults hpoints,
      granted_of_pointsAtDefaults ((pointsAtDefaults_alike hd).1 hpoints)]
    exact canonical_listed (defaults_alike h)
  · rw [granted_of_not_pointsAtDefaults hpoints,
      granted_of_not_pointsAtDefaults (mt (pointsAtDefaults_alike hd).2 hpoints)]
    exact canonical_listed hd

/-- The principals of a class are the same in another order. -/
theorem rosterOf_perm (hl : AcceptedLimits limits) (h : limits.Akin .limits limits')
    (c : PrincipalClass) : (rosterOf limits c).Perm (rosterOf limits' c) := by
  have hmatched := (principalsOf_alike h c).members.matched fun e he =>
    (hl.names c e he).exists_text
  exact hmatched.map_perm fun _ _ _ hv => by rw [canonical_granted h hv]

end Grants

end Validation

/-! ## Limit block -/

theorem Limits.ordered_eq_of_perm {l l' : Limits}
    (h : ∀ c, (l.principals c).Perm (l'.principals c))
    (hnodup : ∀ c, ((l.principals c).map (·.1)).Nodup) : l.ordered = l'.ordered := by
  refine List.flatMap_congr fun c _ => ?_
  -- principals of one class that sort alike have one name, and a name is there once
  rw [Sorted.sort_eq_of_perm (fun a b => Text.le_total a.1 b.1)
    (fun a b c => Text.le_trans a.1 b.1 c.1) (h c) fun a ha b hb hab hba => ?_]
  exact List.inj_on_of_nodup_map (hnodup c) ha hb (Text.le_antisymm a.1 b.1 hab hba)

theorem Directive.limitBlock_eq_of_perm {l l' : Limits}
    (h : ∀ c, (l.principals c).Perm (l'.principals c))
    (hnodup : ∀ c, ((l.principals c).map (·.1)).Nodup) : limitBlock l = limitBlock l' := by
  have hempty : l.isEmpty = l'.isEmpty := by
    unfold Limits.isEmpty
    exact congrArg _ (funext fun c => (h c).isEmpty_eq)
  have hgroups : l.groups = l'.groups := by
    unfold Limits.groups Limits.unorderedGroups
    rw [Limits.ordered_eq_of_perm h hnodup]
  rw [limitBlock, limitBlock, hempty, hgroups]

namespace Validation.AcceptedLimits

variable {limits limits' : Entries} (hl : AcceptedLimits limits)
  (h : limits.Akin .limits limits')

include hl h

theorem limitBlock_alike : Directive.limitBlock (limitsOf limits) =
    Directive.limitBlock (limitsOf limits') := by
  refine Directive.limitBlock_eq_of_perm (fun c => ?_) fun c => ?_
  · cases c <;> exact rosterOf_perm hl h _
  · have hnodup := hl.nodup_shown c (principalsOf_alike h c).apart
    cases c <;> simpa [limitsOf, Limits.principals, rosterOf, Function.comp_def] using hnodup

end Validation.AcceptedLimits

/-! ## Policies -/

namespace Policy

variable {override override' defaults defaults' : Document}

theorem blocks_alike {d d' : Document} (h : d.Akin .policy d') (hvalid : d.validate = .ok ())
    (realm : Document) : (accepted d).blocks realm = (accepted d').blocks realm := by
  have haccepted := Validation.accepted_of_validate hvalid
  rw [blocks, blocks, accepted, accepted,
    haccepted.methods.authBlock_alike (Validation.sectionEntries_alike h "methods"),
    haccepted.limits.limitBlock_alike (Validation.sectionEntries_alike h "limits")]

theorem merged_akin (ho : override.Akin .policy override')
    (hd : defaults.Akin .policy defaults') :
    (merged override defaults).Akin .policy (merged override' defaults') := by
  refine Document.Akin.merge ?_ ho
  -- null stands for the default policy, and differs from nothing else in order only
  by_cases hnull : defaults = .null
  · obtain rfl := hnull
    obtain rfl := hd.same.eq_scalar
    exact ⟨.of_order (.refl _ _), distinctKeys_defaultPolicy, distinctKeys_defaultPolicy⟩
  · have hnull' : defaults' ≠ .null := fun h => hnull (hd.scalar_iff.2 h)
    split
    · exact absurd rfl hnull
    · exact hd

/-- Akin overrides and defaults compile to the same blocks, or neither compiles. -/
theorem compile_akin (realm : Document) (ho : override.Akin .policy override')
    (hd : defaults.Akin .policy defaults') (b : Blocks) :
    compile override defaults realm = .ok b ↔ compile override' defaults' realm = .ok b := by
  have h := merged_akin ho hd
  rw [compile_eq_ok_iff ho.left hd.left, compile_eq_ok_iff ho.right hd.right,
    ← Validation.validate_alike h]
  refine and_congr_right fun hvalid => ?_
  rw [blocks_alike h hvalid]

/-- Whether an override compiles and what it compiles to does not depend on the order of
mappings, nor on the order or number of the names in lists of operations. -/
theorem compile_reordered (realm : Document)
    (ho : override.DistinctKeys ∧ override'.DistinctKeys)
    (hd : defaults.IsBase ∧ defaults'.IsBase)
    (hoo : override.SameUpToOrder .policy override')
    (hdd : defaults.SameUpToOrder .policy defaults') (b : Blocks) :
    compile override defaults realm = .ok b ↔ compile override' defaults' realm = .ok b := by
  have override_akin : override.Akin .policy override' := ⟨.of_order hoo, ho.1, ho.2⟩
  have defaults_akin : defaults.Akin .policy defaults' :=
    ⟨.of_order hdd, hd.1.distinctKeys, hd.2.distinctKeys⟩
  exact compile_akin realm override_akin defaults_akin b

/-- A user with operations of its own and one with the defaults. -/
def userOverride : Document :=
  .mapping (namedEntries [("limits", .mapping (namedEntries [
    ("defaults", .sequence (["GET", "POST"].map .text)),
    ("users", .mapping (namedEntries [
      ("alice", .sequence (["PUT", "GET"].map .text)), ("bob", .text defaultsWord)]))]))])

/-- The same in another order, with a name that is repeated. -/
def shuffledOverride : Document :=
  .mapping (namedEntries [("limits", .mapping (namedEntries [
    ("users", .mapping (namedEntries [
      ("bob", .text defaultsWord), ("alice", .sequence (["GET", "PUT", "GET"].map .text))])),
    ("defaults", .sequence (["POST", "GET"].map .text))]))])

theorem sameUpToOrder_shuffledOverride :
    userOverride.SameUpToOrder .policy shuffledOverride := by
  have users : Document.SameUpToOrder .principals
      (.mapping (namedEntries [("alice", .sequence (["PUT", "GET"].map .text)),
        ("bob", .text defaultsWord)]))
      (.mapping (namedEntries [("bob", .text defaultsWord),
        ("alice", .sequence (["GET", "PUT", "GET"].map .text))])) :=
    .mapping ⟨_, .swap _ _ _, .cons ⟨rfl, .refl _ _⟩
      (.cons ⟨rfl, .texts fun op => by simp; tauto⟩ .nil)⟩
  exact .mapping ⟨_, .refl _, .cons ⟨rfl, .mapping ⟨_, .swap _ _ _, .cons ⟨rfl, users⟩
    (.cons ⟨rfl, .texts fun op => by simp; tauto⟩ .nil)⟩⟩ .nil⟩

theorem distinctKeys_userOverride : userOverride.DistinctKeys := by
  refine distinctKeys_namedEntries (by decide) (List.forall_mem_singleton.2 ?_)
  refine distinctKeys_namedEntries (by decide) (List.forall_mem_cons.2
    ⟨distinctKeys_scalars (by simp), List.forall_mem_singleton.2 ?_⟩)
  exact distinctKeys_namedEntries (by decide) (List.forall_mem_cons.2
    ⟨distinctKeys_scalars (by simp), List.forall_mem_singleton.2 (.scalar _)⟩)

theorem distinctKeys_shuffledOverride : shuffledOverride.DistinctKeys := by
  refine distinctKeys_namedEntries (by decide) (List.forall_mem_singleton.2 ?_)
  refine distinctKeys_namedEntries (by decide) (List.forall_mem_cons.2
    ⟨?_, List.forall_mem_singleton.2 (distinctKeys_scalars (by simp))⟩)
  exact distinctKeys_namedEntries (by decide) (List.forall_mem_cons.2
    ⟨.scalar _, List.forall_mem_singleton.2 (distinctKeys_scalars (by simp))⟩)

/-- Both overrides compile, to the same blocks. -/
theorem compile_reordered_shuffledOverride : ∃ b,
    compile userOverride .null .null = .ok b ∧
      compile shuffledOverride .null .null = .ok b := by
  obtain ⟨b, hb⟩ := Directive.exists_compile distinctKeys_userOverride (.scalar .null)
    (Validation.validate_eq_ok_iff.2 (by decide +kernel)) (.inl rfl)
  refine ⟨b, hb, ?_⟩
  exact (compile_reordered .null ⟨distinctKeys_userOverride, distinctKeys_shuffledOverride⟩
    ⟨Document.isBase_scalar _, Document.isBase_scalar _⟩ sameUpToOrder_shuffledOverride
    (.refl _ _) b).1 hb

end Policy

end AccessPolicy
