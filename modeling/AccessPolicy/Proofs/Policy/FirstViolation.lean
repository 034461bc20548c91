import AccessPolicy.Proofs.Policy.Language

/-!
# The first violation

The checks of a document in their documented order : stage by stage, and in a stage in the order
of the entries and items (`Document.checks`). A check carries what it looks at and nothing else,
of a mapping or a list only whether it is one. `Check.Breaks` says of which violation it is
broken, in terms of what it looks at.

`Document.validate_eq_error_iff_first` : a document is refused for the violation of the first
check that is broken, and so is every document whose checks agree up to that one, whatever
comes after. It is accepted if all are kept (`Document.validate_eq_ok_iff_isKept`).
-/

namespace AccessPolicy

open Validation

/-! ## Checks -/

/-- A check of a document, with what it looks at. Where a mapping or a list is asked for,
that is what is found instead of one. -/
inductive Check where
  | root (found : Option Document)
  | sectionKey (key : Key)
  | sectionShape (name : Text) (found : Option Document)
  | methodKey (key : Key)
  | methodShape (kind : MethodKind) (found : Option Document)
  | fieldKey (kind : MethodKind) (key : Key)
  | enabled (kind : MethodKind) (d : Document)
  | userFile (d : Document)
  | posixGroup (d : Option Document)
  | url (d : Document)
  | optionalText (name : Text) (d : Document)
  | security (d : Document)
  | limitKey (key : Key)
  | principalsShape (c : PrincipalClass) (found : Option Document)
  | name (c : PrincipalClass) (key : Key)
  | operationsShape (place : GrantPlace) (found : Option Document)
  | operationsEmpty (place : GrantPlace) (isEmpty : Bool)
  | operation (place : GrantPlace) (d : Document)

namespace Check

/-- The check is broken, for the violation. -/
inductive Breaks : Check → Violation → Prop where
  | root (d : Document) : Breaks (.root (some d)) (.rootShape d)
  | sectionKey {key : Key} (h : ¬ key.IsOneOf sectionNames) :
      Breaks (.sectionKey key) (.unknownSection key)
  | sectionShape (name : Text) (d : Document) :
      Breaks (.sectionShape name (some d)) (.sectionShape name d)
  | methodKey {key : Key} (h : ¬ ∃ kind : MethodKind, key = .text kind.name) :
      Breaks (.methodKey key) (.unknownKind key)
  | methodShape (kind : MethodKind) (d : Document) :
      Breaks (.methodShape kind (some d)) (.methodShape kind d)
  | fieldKey {kind : MethodKind} {key : Key} (h : ¬ key.IsOneOf kind.fields) :
      Breaks (.fieldKey kind key) (.unknownField kind key)
  | enabled {kind : MethodKind} {d : Document} (h : ¬ ∃ b, d = .bool b) :
      Breaks (.enabled kind d) (.enabledShape kind d)
  | userFileMissing {d : Document} (h : ¬ ∃ c s, d = .text (c :: s)) :
      Breaks (.userFile d) .userFileMissing
  | userFileRelative {c : CodePoint} {s : Text} (h : c ≠ .char '/') :
      Breaks (.userFile (.text (c :: s))) (.userFileRelative (c :: s))
  | posixGroupMissing : Breaks (.posixGroup none) .posixGroupMissing
  | posixGroupShape {d : Document} (h : ¬ ∃ b, d = .bool b) :
      Breaks (.posixGroup (some d)) (.posixGroupShape d)
  | url {d : Document} (h : ¬ ∃ c s, d = .text (c :: s)) : Breaks (.url d) .urlMissing
  | optionalText {name : Text} {d : Document} (h : ¬ (d = .null ∨ ∃ s, d = .text s)) :
      Breaks (.optionalText name d) (.fieldShape name d)
  | security {d : Document}
      (h : ¬ (d.isGiven = false ∨ ∃ mode ∈ securityModes, d = .text mode)) :
      Breaks (.security d) (.unknownSecurity d)
  | limitKey {key : Key} (h : ¬ key.IsOneOf limitNames) :
      Breaks (.limitKey key) (.unknownLimit key)
  | principalsShape (c : PrincipalClass) (d : Document) :
      Breaks (.principalsShape c (some d)) (.principalsShape c d)
  | host {key : Key} (h : ¬ Address.isBlock key.shown = true) :
      Breaks (.name .hosts key) (.hostAddress key)
  | userEmpty {key : Key} (h : ¬ ∃ c s, key = .text (c :: s)) :
      Breaks (.name .users key) (.userEmpty key)
  | userCharacters {c : CodePoint} {s : Text}
      (h : ¬ ∀ p ∈ c :: s, p.isPrintable = true ∧ p.isBlank = false) :
      Breaks (.name .users (.text (c :: s))) (.userCharacters (.text (c :: s)))
  | groupEmpty {key : Key} (h : ¬ ∃ s, key = .text s ∧ ∃ p ∈ s, p.isBlank = false) :
      Breaks (.name .ldapGroups key) (.groupEmpty key)
  | groupCharacters {s : Text} (hblank : ∃ p ∈ s, p.isBlank = false)
      (h : ¬ ∀ p ∈ s, p.isPrintable = true) :
      Breaks (.name .ldapGroups (.text s)) (.groupCharacters (.text s))
  | operationsShape (place : GrantPlace) (d : Document) :
      Breaks (.operationsShape place (some d)) (.operationsShape place d)
  | operationsEmpty (place : GrantPlace) :
      Breaks (.operationsEmpty place true) (.operationsEmpty place)
  | operation {place : GrantPlace} {d : Document} (h : ¬ ∃ name ∈ operations, d = .text name) :
      Breaks (.operation place d) (.unknownOperation place d)

/-- The check is broken for no violation. -/
def IsKept (c : Check) : Prop :=
  ∀ v, ¬ c.Breaks v

end Check

/-! ## Their order -/

/-- What stages of validation there are. -/
inductive Stage where
  | shape
  | methodKinds
  | fileMethod
  | ldapMethod
  | limitKeys
  | principalShapes
  | names (c : PrincipalClass)
  | defaults
  | grants (c : PrincipalClass)

/-- The stages in order. -/
def Stage.all : List Stage :=
  [.shape, .methodKinds, .fileMethod, .ldapMethod, .limitKeys, .principalShapes,
    .names .hosts, .names .users, .names .ldapGroups, .defaults,
    .grants .hosts, .grants .users, .grants .ldapGroups]

/-- What is found instead of a mapping. -/
def Document.insteadOfMapping? (d : Document) : Option Document :=
  if d.isMapping then none else some d

/-- What is found instead of a list. -/
def Document.insteadOfList? (d : Document) : Option Document :=
  if d.items?.isSome then none else some d

namespace Checks

/-- The checks of the two sections, and that there are no others. -/
def ofShape (d : Document) : List Check :=
  .root d.insteadOfMapping? :: (d.entries.map fun e => .sectionKey e.1) ++
    sectionNames.map fun name => .sectionShape name (d.entries.getD name).insteadOfMapping?

/-- The checks of the fields of a method, and of `enabled` if it is there. -/
def ofFields (kind : MethodKind) (config : Entries) : List Check :=
  (config.map fun e => .fieldKey kind e.1) ++
    (config.get? "enabled").toList.map (.enabled kind)

/-- The checks of one entry of the methods. -/
def ofMethod (key : Key) (config : Document) : List Check :=
  .methodKey key ::
    match kindOf? key with
    | some kind => .methodShape kind config.insteadOfMapping? :: ofFields kind config.entries
    | none => []

/-- The checks of the methods, one after the other. -/
def ofMethods (methods : Entries) : List Check :=
  methods.flatMap fun e => ofMethod e.1 e.2

/-- The checks of the file method, if it is enabled. -/
def ofFileMethod (methods : Entries) : List Check :=
  if isEnabled methods .file then
    [.userFile ((configOf methods .file).getD "user_file")]
  else []

/-- The checks of the directory method, if it is enabled. -/
def ofLdapMethod (methods : Entries) : List Check :=
  if isEnabled methods .ldap then
    let config := configOf methods .ldap
    .posixGroup (config.get? "posix_group") :: .url (config.getD "url") ::
      (optionalTexts.map fun name => .optionalText name (config.getD name)) ++
        [.security (config.getD "security")]
  else []

/-- The checks that the limits have no other keys. -/
def ofLimitKeys (limits : Entries) : List Check :=
  limits.map fun e => .limitKey e.1

/-- The check of a map of principals. -/
def ofPrincipals (c : PrincipalClass) (d : Document) : Check :=
  .principalsShape c
    (match d with
      | .null => none
      | d => d.insteadOfMapping?)

/-- The checks of the maps of principals. -/
def ofPrincipalShapes (limits : Entries) : List Check :=
  PrincipalClass.all.map fun c => ofPrincipals c (limits.getD c.name)

/-- The checks of the names of a class. -/
def ofNames (limits : Entries) (c : PrincipalClass) : List Check :=
  (principalsOf limits c).map fun e => .name c e.1

/-- The checks of a list of operations. -/
def ofOperations (place : GrantPlace) (d : Document) : List Check :=
  .operationsShape place d.insteadOfList? ::
    match d.items? with
    | some items => .operationsEmpty place items.isEmpty :: items.map (.operation place)
    | none => []

/-- The checks of what a principal is granted, unless that is the defaults. -/
def ofGrant (place : GrantPlace) (d : Document) : List Check :=
  match d with
  | .null => []
  | .text s => if s = defaultsWord then [] else ofOperations place d
  | _ => ofOperations place d

/-- The checks of what the principals of a class are granted. -/
def ofGrants (limits : Entries) (c : PrincipalClass) : List Check :=
  (principalsOf limits c).flatMap fun e => ofGrant (.principal c e.1) e.2

end Checks

/-- The checks of a document in a stage, in order. -/
def Document.checksAt (d : Document) : Stage → List Check
  | .shape => Checks.ofShape d
  | .methodKinds => Checks.ofMethods (d.sectionEntries "methods")
  | .fileMethod => Checks.ofFileMethod (d.sectionEntries "methods")
  | .ldapMethod => Checks.ofLdapMethod (d.sectionEntries "methods")
  | .limitKeys => Checks.ofLimitKeys (d.sectionEntries "limits")
  | .principalShapes => Checks.ofPrincipalShapes (d.sectionEntries "limits")
  | .names c => Checks.ofNames (d.sectionEntries "limits") c
  | .defaults => Checks.ofOperations .defaults ((d.sectionEntries "limits").getD "defaults")
  | .grants c => Checks.ofGrants (d.sectionEntries "limits") c

/-- The checks of a document, in order. -/
def Document.checks (d : Document) : List Check :=
  Stage.all.flatMap d.checksAt

/-! ## The first broken check -/

/-- `c` is broken for `v`, and the checks before it are kept. -/
structure Check.First (before : List Check) (c : Check) (v : Violation) : Prop where
  kept : ∀ b ∈ before, b.IsKept
  breaks : c.Breaks v

/-- What a list of checks comes to : the violation of the first that is broken, if one is. -/
def Checks.ComesTo (cs : List Check) : Option Violation → Prop
  | none => ∀ c ∈ cs, c.IsKept
  | some v => ∃ before c, before ++ [c] <+: cs ∧ Check.First before c v

namespace Checks

variable {cs cs' : List Check} {c : Check} {x y : Option Violation}

theorem comesTo_nil : ComesTo [] none :=
  nofun

theorem comesTo_broken {v : Violation} (h : c.Breaks v) : ComesTo (c :: cs) (some v) :=
  ⟨[], c, List.prefix_append [c] cs, nofun, h⟩

theorem ComesTo.append (h : ComesTo cs x) (h' : ComesTo cs' y) :
    ComesTo (cs ++ cs') (x.or y) := by
  cases x with
  | some v =>
    obtain ⟨before, c, hstart, hfirst⟩ := h
    exact ⟨before, c, hstart.trans (List.prefix_append cs cs'), hfirst⟩
  | none =>
    cases y with
    | none => exact List.forall_mem_append.2 ⟨h, h'⟩
    | some v =>
      obtain ⟨before, c, hstart, hkept, hbreaks⟩ := h'
      refine ⟨cs ++ before, c, ?_, List.forall_mem_append.2 ⟨h, hkept⟩, hbreaks⟩
      rw [List.append_assoc]
      exact (List.prefix_append_right_inj cs).2 hstart

theorem ComesTo.cons (hc : c.IsKept) (h : ComesTo cs x) : ComesTo (c :: cs) x := by
  have hfirst : ComesTo [c] none := by simpa [ComesTo] using hc
  exact hfirst.append h

/-- A single check that asks for `p` and has one violation. -/
theorem comesTo_single {p : Prop} {v : Violation} (hp : x = none ↔ p)
    (hv : ∀ w, x = some w → w = v) (hkept : p → c.IsKept) (hbroken : ¬ p → c.Breaks v) :
    ComesTo [c] x := by
  cases x with
  | none => exact comesTo_nil.cons (hkept (hp.1 rfl))
  | some w =>
    obtain rfl := hv w rfl
    exact comesTo_broken (hbroken (mt hp.2 nofun))

theorem comesTo_require {condition : Bool} {p : Prop} {v : Violation}
    (hp : condition = true ↔ p) (hkept : p → c.IsKept) (hbroken : ¬ p → c.Breaks v) :
    ComesTo [c] (require condition v) :=
  comesTo_single (require_eq_none_iff.trans hp) (fun _ h => (require_eq_some_iff.1 h).2)
    hkept hbroken

theorem comesTo_flatMap {α : Type} {f : α → List Check} {g : α → Option Violation} {l : List α}
    (h : ∀ a ∈ l, ComesTo (f a) (g a)) : ComesTo (l.flatMap f) (l.findSome? g) := by
  induction l with
  | nil => exact comesTo_nil
  | cons a l ih =>
    have hcons := (h a List.mem_cons_self).append (ih fun b hb => h b (List.mem_cons_of_mem a hb))
    rw [List.flatMap_cons, List.findSome?_cons]
    cases hg : g a with
    | none => simpa [hg] using hcons
    | some v => simpa [hg] using hcons

theorem comesTo_map {α : Type} {f : α → Check} {g : α → Option Violation} {l : List α}
    (h : ∀ a ∈ l, ComesTo [f a] (g a)) : ComesTo (l.map f) (l.findSome? g) := by
  rw [List.map_eq_flatMap]
  exact comesTo_flatMap h

/-- A check for a mapping or a list, by what is found instead of one. -/
theorem comesTo_found {found : Option Document → Check} {condition : Bool} {d : Document}
    {v : Violation} (hkept : (found none).IsKept) (hbroken : (found (some d)).Breaks v) :
    ComesTo [found (if condition then none else some d)] (require condition v) := by
  cases condition with
  | true => exact comesTo_nil.cons hkept
  | false => exact comesTo_broken hbroken

/-! ## Shape -/

theorem comesTo_shape (d : Document) : ComesTo (ofShape d) (shape d) := by
  unfold ofShape shape Document.insteadOfMapping? Document.entries Document.isMapping
  cases d.entries? with
  | none => exact comesTo_broken (.root d)
  | some es =>
    refine .append (.cons nofun (comesTo_map fun e _ => ?_))
      (comesTo_map fun name _ => comesTo_found nofun (.sectionShape name _))
    refine comesTo_require Key.isNamed_iff (fun hkey _ hbreaks => ?_) .sectionKey
    cases hbreaks with
    | sectionKey hnot => exact hnot hkey

/-! ## Methods -/

theorem comesTo_fields (kind : MethodKind) (config : Entries) :
    ComesTo (ofFields kind config) (methodFields kind config) := by
  refine .append (comesTo_map fun e _ => ?_) ?_
  · refine comesTo_require Key.isNamed_iff (fun hkey _ hbreaks => ?_) .fieldKey
    cases hbreaks with
    | fieldKey hnot => exact hnot hkey
  · cases config.get? "enabled" with
    | none => exact comesTo_nil
    | some v =>
      refine comesTo_require isBool_iff (fun hv _ hbreaks => ?_) .enabled
      cases hbreaks with
      | enabled hnot => exact hnot hv

theorem comesTo_method (key : Key) (config : Document) :
    ComesTo (ofMethod key config) (method key config) := by
  unfold ofMethod method
  cases hkind : kindOf? key with
  | none =>
    refine comesTo_broken (.methodKey ?_)
    rintro ⟨kind, hkey⟩
    cases hkind.symm.trans (kindOf?_eq_some_iff.2 hkey)
  | some kind =>
    refine .cons (fun _ hbreaks => ?_) ?_
    · cases hbreaks with
      | methodKey hnot => exact hnot ⟨kind, kindOf?_eq_some_iff.1 hkind⟩
    · unfold Document.insteadOfMapping? Document.entries Document.isMapping
      cases config.entries? with
      | none => exact comesTo_broken (.methodShape kind config)
      | some es => exact .cons nofun (comesTo_fields kind es)

theorem comesTo_userFile (c : CodePoint) (s : Text) :
    ComesTo [.userFile (.text (c :: s))]
      (require ((c :: s).head? == some (.char '/')) (.userFileRelative (c :: s))) := by
  refine comesTo_require (p := c = .char '/') (by simp) (fun hc _ hbreaks => ?_)
    .userFileRelative
  cases hbreaks with
  | userFileMissing hnot => exact hnot ⟨c, s, rfl⟩
  | userFileRelative hnot => exact hnot hc

theorem comesTo_fileMethod (methods : Entries) :
    ComesTo (ofFileMethod methods) (fileMethod methods) := by
  unfold ofFileMethod fileMethod
  cases isEnabled methods .file with
  | false => exact comesTo_nil
  | true =>
    simp only [if_true]
    split
    · next s hs =>
      rw [hs]
      cases s with
      | nil => exact comesTo_broken (.userFileMissing (by simp))
      | cons c s => exact comesTo_userFile c s
    · next hnot =>
      refine comesTo_broken (.userFileMissing ?_)
      rintro ⟨c, s, hs⟩
      exact hnot _ hs

theorem comesTo_posixGroup (config : Entries) :
    ComesTo [.posixGroup (config.get? "posix_group")] (posixGroup config) := by
  unfold posixGroup
  cases config.get? "posix_group" with
  | none => exact comesTo_broken .posixGroupMissing
  | some v =>
    refine comesTo_require isBool_iff (fun hv _ hbreaks => ?_) .posixGroupShape
    cases hbreaks with
    | posixGroupShape hnot => exact hnot hv

theorem comesTo_url (config : Entries) : ComesTo [.url (config.getD "url")] (url config) := by
  unfold url
  split
  · next s hs =>
    rw [hs]
    cases s with
    | nil => exact comesTo_broken (.url (by simp))
    | cons c s =>
      refine comesTo_nil.cons fun _ hbreaks => ?_
      cases hbreaks with
      | url hnot => exact hnot ⟨c, s, rfl⟩
  · next hnot =>
    refine comesTo_broken (.url ?_)
    rintro ⟨c, s, hs⟩
    exact hnot _ hs

theorem comesTo_optionalText (config : Entries) (name : Text) :
    ComesTo [.optionalText name (config.getD name)] (optionalText config name) := by
  refine comesTo_single optionalText_eq_none_iff (fun v h => ?_) (fun hd _ hbreaks => ?_)
    .optionalText
  · unfold optionalText at h
    split at h <;> cases h
    rfl
  · cases hbreaks with
    | optionalText hnot => exact hnot hd

theorem comesTo_security (config : Entries) :
    ComesTo [.security (config.getD "security")] (security config) := by
  refine comesTo_single security_eq_none_iff (fun v h => ?_) (fun hd _ hbreaks => ?_) .security
  · unfold security at h
    split at h
    · next s hs => exact hs ▸ (require_eq_some_iff.1 h).2
    · exact (require_eq_some_iff.1 h).2
  · cases hbreaks with
    | security hnot => exact hnot hd

theorem comesTo_ldapMethod (methods : Entries) :
    ComesTo (ofLdapMethod methods) (ldapMethod methods) := by
  unfold ofLdapMethod ldapMethod
  cases isEnabled methods .ldap with
  | false => exact comesTo_nil
  | true =>
    exact (comesTo_posixGroup _).append <| (comesTo_url _).append <|
      .append (comesTo_map fun name _ => comesTo_optionalText _ name) (comesTo_security _)

/-! ## Limits -/

theorem comesTo_limitKeys (limits : Entries) :
    ComesTo (ofLimitKeys limits) (limitKeys limits) := by
  refine comesTo_map fun e _ => ?_
  refine comesTo_require Key.isNamed_iff (fun hkey _ hbreaks => ?_) .limitKey
  cases hbreaks with
  | limitKey hnot => exact hnot hkey

theorem comesTo_principalShapes (limits : Entries) :
    ComesTo (ofPrincipalShapes limits) (principalShapes limits) := by
  refine comesTo_map fun c _ => ?_
  generalize limits.getD c.name = d
  -- null is the one document that is neither a mapping nor refused
  cases d with
  | scalar s =>
    cases s with
    | null => exact comesTo_nil.cons nofun
    | _ => exact comesTo_broken (.principalsShape c _)
  | sequence items => exact comesTo_broken (.principalsShape c _)
  | tuple items => exact comesTo_broken (.principalsShape c _)
  | mapping es => exact comesTo_nil.cons nofun
  | set ks => exact comesTo_broken (.principalsShape c _)
  | cyclic w place =>
    exact comesTo_found (d := .cyclic w place) nofun (.principalsShape c _)

/-- The check of a name that may stand for a principal of the class is kept. -/
theorem isKept_name {c : PrincipalClass} {key : Key} (h : IsName c key) :
    (Check.name c key).IsKept := by
  intro _ hbreaks
  cases hbreaks with
  | host hnot => exact hnot h
  | userEmpty hnot =>
    obtain ⟨s, rfl, hne, -⟩ := h
    obtain ⟨p, s, rfl⟩ := List.exists_cons_of_ne_nil hne
    exact hnot ⟨p, s, rfl⟩
  | userCharacters hnot =>
    obtain ⟨s, hs, -, hall⟩ := h
    cases hs
    exact hnot hall
  | groupEmpty hnot =>
    obtain ⟨s, rfl, hblank, -⟩ := h
    exact hnot ⟨s, rfl, hblank⟩
  | groupCharacters _ hnot =>
    obtain ⟨s, hs, -, hall⟩ := h
    cases hs
    exact hnot hall

theorem comesTo_hostName (key : Key) : ComesTo [.name .hosts key] (hostName key) :=
  comesTo_require (p := IsName .hosts key) Iff.rfl isKept_name .host

theorem comesTo_userName (key : Key) : ComesTo [.name .users key] (userName key) := by
  cases h : userName key with
  | none => exact comesTo_nil.cons (isKept_name (userName_eq_none_iff.1 h))
  | some v =>
    refine comesTo_broken ?_
    unfold userName at h
    split at h
    · next s =>
      cases s with
      | nil =>
        cases h
        exact .userEmpty (by simp)
      | cons p s =>
        obtain ⟨hnot, rfl⟩ := require_eq_some_iff.1 h
        exact .userCharacters (by simpa [List.all_eq_true] using hnot)
    · next hnot =>
      cases h
      refine .userEmpty ?_
      rintro ⟨p, s, hs⟩
      exact hnot _ hs

theorem comesTo_groupName (key : Key) : ComesTo [.name .ldapGroups key] (groupName key) := by
  cases h : groupName key with
  | none => exact comesTo_nil.cons (isKept_name (groupName_eq_none_iff.1 h))
  | some v =>
    refine comesTo_broken ?_
    unfold groupName at h
    split at h
    · next s =>
      cases hblank : s.all CodePoint.isBlank with
      | true =>
        rw [hblank] at h
        cases h
        refine .groupEmpty ?_
        rintro ⟨_, hs, p, hp, hnot⟩
        cases hs
        cases hnot.symm.trans (List.all_eq_true.1 hblank p hp)
      | false =>
        rw [hblank] at h
        obtain ⟨hnot, rfl⟩ := require_eq_some_iff.1 h
        refine .groupCharacters (by simpa using hblank) ?_
        rwa [← List.all_eq_true]
    · next hnot =>
      cases h
      refine .groupEmpty ?_
      rintro ⟨s, hs, -⟩
      exact hnot _ hs

/-! ## Operations -/

theorem comesTo_operation (place : GrantPlace) (d : Document) :
    ComesTo [.operation place d] (operation place d) := by
  refine comesTo_single operation_eq_none_iff (fun v h => ?_) (fun hd _ hbreaks => ?_) .operation
  · unfold operation at h
    split at h
    · exact (require_eq_some_iff.1 h).2
    · exact (Option.some.inj h).symm
  · cases hbreaks with
    | operation hnot => exact hnot hd

theorem comesTo_operationList (place : GrantPlace) (d : Document) :
    ComesTo (ofOperations place d) (operationList place d) := by
  unfold ofOperations operationList Document.insteadOfList?
  cases d.items? with
  | none => exact comesTo_broken (.operationsShape place d)
  | some items =>
    refine .cons nofun ?_
    cases items with
    | nil => exact comesTo_broken (.operationsEmpty place)
    | cons item items => exact .cons nofun (comesTo_map fun d _ => comesTo_operation place d)

theorem comesTo_grant (place : GrantPlace) (d : Document) :
    ComesTo (ofGrant place d) (grant place d) := by
  unfold ofGrant
  split
  · exact comesTo_nil
  · next s =>
    show ComesTo _ (if s = defaultsWord then none else operationList place (.text s))
    split
    · exact comesTo_nil
    · exact comesTo_operationList place (.text s)
  · next hnull htext =>
    unfold grant
    split
    · exact absurd rfl hnull
    · exact absurd rfl (htext _)
    · exact comesTo_operationList place d

/-! ## The stages -/

theorem comesTo_methodsStage (methods : Entries) :
    ComesTo (ofMethods methods ++ (ofFileMethod methods ++ ofLdapMethod methods))
      (methodsStage methods) :=
  (comesTo_flatMap fun e _ => comesTo_method e.1 e.2).append <|
    (comesTo_fileMethod methods).append (comesTo_ldapMethod methods)

theorem comesTo_principalNames (limits : Entries) :
    ComesTo (ofNames limits .hosts ++ (ofNames limits .users ++ ofNames limits .ldapGroups))
      (principalNames limits) :=
  (comesTo_map fun e _ => comesTo_hostName e.1).append <|
    (comesTo_map fun e _ => comesTo_userName e.1).append
      (comesTo_map fun e _ => comesTo_groupName e.1)

theorem comesTo_operationSets (limits : Entries) :
    ComesTo (ofOperations .defaults (limits.getD "defaults") ++
      PrincipalClass.all.flatMap (ofGrants limits)) (operationSets limits) :=
  (comesTo_operationList .defaults _).append <| comesTo_flatMap fun c _ =>
    comesTo_flatMap fun e _ => comesTo_grant (.principal c e.1) e.2

theorem comesTo_limitsStage (limits : Entries) :
    ComesTo (ofLimitKeys limits ++ (ofPrincipalShapes limits ++
      ((ofNames limits .hosts ++ (ofNames limits .users ++ ofNames limits .ldapGroups)) ++
        (ofOperations .defaults (limits.getD "defaults") ++
          PrincipalClass.all.flatMap (ofGrants limits))))) (limitsStage limits) :=
  (comesTo_limitKeys limits).append <| (comesTo_principalShapes limits).append <|
    (comesTo_principalNames limits).append (comesTo_operationSets limits)

end Checks

/-! ## The whole document -/

open Checks

theorem Document.comesTo_violation? (d : Document) : ComesTo d.checks d.violation? := by
  have hcomes := (comesTo_shape d).append <|
    (comesTo_methodsStage (d.sectionEntries "methods")).append
      (comesTo_limitsStage (d.sectionEntries "limits"))
  rw [violation?]
  simpa only [checks, checksAt, Stage.all, PrincipalClass.all, List.flatMap_cons,
    List.flatMap_nil, List.append_nil, List.append_assoc] using hcomes

namespace Check

/-- A check is broken for one violation only. -/
theorem Breaks.unique {c : Check} {v w : Violation} (hv : c.Breaks v) (hw : c.Breaks w) :
    v = w := by
  cases hv with
  | userFileMissing hnot =>
    cases hw with
    | userFileMissing => rfl
    | userFileRelative => exact absurd ⟨_, _, rfl⟩ hnot
  | userFileRelative =>
    cases hw with
    | userFileMissing hnot => exact absurd ⟨_, _, rfl⟩ hnot
    | userFileRelative => rfl
  | userEmpty hnot =>
    cases hw with
    | userEmpty => rfl
    | userCharacters => exact absurd ⟨_, _, rfl⟩ hnot
  | userCharacters =>
    cases hw with
    | userEmpty hnot => exact absurd ⟨_, _, rfl⟩ hnot
    | userCharacters => rfl
  | groupEmpty hnot =>
    cases hw with
    | groupEmpty => rfl
    | groupCharacters hblank => exact absurd ⟨_, rfl, hblank⟩ hnot
  | groupCharacters hblank =>
    cases hw with
    | groupEmpty hnot => exact absurd ⟨_, rfl, hblank⟩ hnot
    | groupCharacters => rfl
  | _ =>
    cases hw
    rfl

end Check

/-- Of two first broken checks of a list neither stands before the other. -/
theorem Check.First.unique {before before' : List Check} {c c' : Check} {v v' : Violation}
    (h : First before c v) (h' : First before' c' v')
    (hstart : before ++ [c] <+: before' ++ [c']) : v = v' := by
  rcases List.prefix_concat_iff.1 hstart with heq | hbefore
  · obtain ⟨-, hc⟩ := List.append_inj' heq rfl
    obtain rfl := List.singleton_inj.1 hc
    exact h.breaks.unique h'.breaks
  · have hc : c ∈ before' := hbefore.subset (by simp)
    exact absurd h.breaks (h'.kept c hc v)

/-- Nothing after the first broken check has a part in what the checks come to. -/
theorem Checks.ComesTo.eq_some {cs before : List Check} {c : Check} {v : Violation}
    {x : Option Violation} (h : ComesTo cs x) (hstart : before ++ [c] <+: cs)
    (hfirst : Check.First before c v) : x = some v := by
  cases x with
  | none => exact absurd hfirst.breaks (h c (hstart.subset (by simp)) v)
  | some w =>
    obtain ⟨before', c', hstart', hfirst'⟩ := h
    rcases List.prefix_or_prefix_of_prefix hstart hstart' with hle | hle
    · rw [hfirst.unique hfirst' hle]
    · rw [hfirst'.unique hfirst hle]

/-- A document is accepted if no check of it is broken. -/
theorem Document.validate_eq_ok_iff_isKept {d : Document} :
    d.validate = .ok () ↔ ∀ c ∈ d.checks, c.IsKept := by
  rw [validate_eq_ok_iff, Option.isNone_iff_eq_none]
  have hcomes := d.comesTo_violation?
  constructor
  · intro hnone
    rwa [hnone] at hcomes
  · intro hkept
    cases hv : d.violation? with
    | none => rfl
    | some v =>
      rw [hv] at hcomes
      obtain ⟨before, c, hstart, hfirst⟩ := hcomes
      exact absurd hfirst.breaks (hkept c (hstart.subset (by simp)) v)

/-- A document with this first broken check is refused for its violation. -/
theorem Document.validate_of_first {d : Document} {before : List Check} {c : Check}
    {v : Violation} (hstart : before ++ [c] <+: d.checks) (hfirst : Check.First before c v) :
    d.validate = .error v.rejection := by
  rw [validate, d.comesTo_violation?.eq_some hstart hfirst]

/-- A document is refused for the violation of its first broken check, and so is every document
with the same checks up to that one. -/
theorem Document.validate_eq_error_iff_first {d : Document} {r : Rejection} :
    d.validate = .error r ↔ ∃ before c v, before ++ [c] <+: d.checks ∧
      Check.First before c v ∧ r = v.rejection ∧
      ∀ d' : Document, before ++ [c] <+: d'.checks → d'.validate = .error r := by
  constructor
  · intro h
    cases hv : d.violation? with
    | none => simp [validate, hv] at h
    | some v =>
      obtain ⟨before, c, hstart, hfirst⟩ : ComesTo d.checks (some v) :=
        hv ▸ d.comesTo_violation?
      obtain rfl : v.rejection = r := by simpa [validate, hv] using h
      exact ⟨before, c, v, hstart, hfirst, rfl, fun d' hd' => validate_of_first hd' hfirst⟩
  · rintro ⟨before, c, v, hstart, -, -, hsame⟩
    exact hsame d hstart

end AccessPolicy
