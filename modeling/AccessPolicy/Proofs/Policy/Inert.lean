import AccessPolicy.Proofs.Policy.OrderFree

/-!
# Methods that are off are inert

A method is off (`MethodKind.IsOff`) if its `enabled` is missing or false. Its other fields hold
anything. Two documents that differ in the fields of methods that are off only
(`Document.SameWhereOn`) have the same first violation : the validator reads the names of such
fields and never their values (`Document.SameWhereOn.violation?_eq`). The methods that are
read from the two differ, but not in the part that is on (`Methods.on`), and the directives are
those of that part (`Directive.authLines_on`).

`Policy.compile_of_sameWhereOn` : the documents are accepted or refused alike, and compile to
the same blocks.
-/

namespace AccessPolicy

/-! ## Documents that differ in methods that are off -/

/-- The entries have the same keys, one by one, and the values under each are equal or
related. -/
def Entries.SameUpTo (R : Key → Document → Document → Prop) (es fs : Entries) : Prop :=
  List.Forall₂ (fun e f => e.1 = f.1 ∧ (e.2 = f.2 ∨ R e.1 e.2 f.2)) es fs

/-- Both documents are mappings, of related entries. -/
def Document.Mappings (R : Entries → Entries → Prop) (d d' : Document) : Prop :=
  ∃ es fs, d.entries? = some es ∧ d'.entries? = some fs ∧ R es fs

/-- The fields of a method of this kind that is off : they have known names and whatever
values, except that `enabled` is missing or false. -/
structure MethodKind.IsOff (kind : MethodKind) (config : Entries) : Prop where
  names : ∀ e ∈ config, e.1.isNamed kind.fields = true
  enabled : config.get? "enabled" = none ∨ config.get? "enabled" = some (.bool false)

/-- A method that is off in both documents. -/
def MethodKind.BothOff (key : Key) (d d' : Document) : Prop :=
  ∃ kind : MethodKind, key = .text kind.name ∧
    d.Mappings (fun config config' => kind.IsOff config ∧ kind.IsOff config') d'

/-- The methods sections of both documents, with the same methods except for those that are off
in both. -/
def Document.SameMethods (key : Key) (d d' : Document) : Prop :=
  key = .text "methods" ∧ d.Mappings (Entries.SameUpTo MethodKind.BothOff) d'

/-- The documents differ only in the fields of methods that are off in both. -/
def Document.SameWhereOn (d d' : Document) : Prop :=
  d.Mappings (Entries.SameUpTo Document.SameMethods) d'

theorem MethodKind.IsOff.isGiven_flag {kind : MethodKind} {config : Entries}
    (h : kind.IsOff config) : (config.flag "enabled").isGiven = false := by
  unfold Entries.flag
  rcases h.enabled with hnone | hfalse
  · rw [hnone]
    rfl
  · rw [hfalse]
    rfl

namespace Entries.SameUpTo

variable {R : Key → Document → Document → Prop} {es fs : Entries}

theorem get? (h : SameUpTo R es fs) (name : Text) :
    Option.Rel (fun v v' => v = v' ∨ R (.text name) v v') (es.get? name) (fs.get? name) := by
  unfold Entries.get?
  induction h with
  | nil => exact .none
  | @cons e f es fs hef _ ih =>
    obtain ⟨k, v⟩ := e
    obtain ⟨k', v'⟩ := f
    obtain ⟨rfl, hv⟩ := hef
    rw [Entries.lookup, Entries.lookup]
    split
    · next hk =>
      obtain rfl : k = .text name := Key.Names.eq_text (.inr hk)
      exact .some hv
    · exact ih

theorem getD (h : SameUpTo R es fs) (name : Text) :
    es.getD name = fs.getD name ∨ R (.text name) (es.getD name) (fs.getD name) := by
  unfold Entries.getD
  have hrel := h.get? name
  generalize es.get? name = v at hrel
  generalize fs.get? name = v' at hrel
  cases hrel with
  | some hv => exact hv
  | none => exact .inl rfl

/-- What a search that does not tell related values apart finds. -/
theorem findSome?_eq {α : Type} {f : Key × Document → Option α} (h : SameUpTo R es fs)
    (hf : ∀ k v v', R k v v' → f (k, v) = f (k, v')) : es.findSome? f = fs.findSome? f := by
  induction h with
  | nil => rfl
  | @cons e e' es fs hee _ ih =>
    obtain ⟨k, v⟩ := e
    obtain ⟨k', v'⟩ := e'
    obtain ⟨rfl, hv⟩ := hee
    have hhead : f (k, v) = f (k, v') :=
      hv.elim (fun heq => congrArg (fun w => f (k, w)) heq) (hf k v v')
    rw [List.findSome?_cons, List.findSome?_cons, hhead, ih]

end Entries.SameUpTo

namespace Validation

/-! ## Validation -/

variable {methods methods' : Entries} {kind : MethodKind}

/-- The validator has no objection to a method that is off. -/
theorem methodFields_of_isOff {config : Entries} (h : kind.IsOff config) :
    methodFields kind config = none := by
  refine methodFields_eq_none_iff.2 ⟨h.names, fun v hv => ⟨false, ?_⟩⟩
  rcases h.enabled with hnone | hfalse
  · cases hnone.symm.trans hv
  · exact Option.some.inj (hv.symm.trans hfalse)

theorem methodKinds_eq (h : methods.SameUpTo MethodKind.BothOff methods') :
    methodKinds methods = methodKinds methods' := by
  refine h.findSome?_eq fun k v v' hoff => ?_
  obtain ⟨kind, rfl, es, fs, hes, hfs, hleft, hright⟩ := hoff
  rw [method_eq_none_iff.2 ⟨kind, kindOf?_name kind, es, hes, methodFields_of_isOff hleft⟩,
    method_eq_none_iff.2 ⟨kind, kindOf?_name kind, fs, hfs, methodFields_of_isOff hright⟩]

/-- A method has the same fields in both, or is off in both. -/
theorem configOf_eq_or_isOff (h : methods.SameUpTo MethodKind.BothOff methods')
    (kind : MethodKind) : configOf methods kind = configOf methods' kind ∨
      kind.IsOff (configOf methods kind) ∧ kind.IsOff (configOf methods' kind) := by
  refine (h.getD kind.name).imp (fun heq => congrArg Document.entries heq) ?_
  rintro ⟨kind', hkind, es, fs, hes, hfs, hoff⟩
  obtain rfl : kind = kind' := by
    injection hkind with hscalar
    injection hscalar with hname
    exact MethodKind.name_injective hname
  rwa [configOf, configOf, Document.entries_of_entries? hes, Document.entries_of_entries? hfs]

theorem isEnabled_of_isOff (h : kind.IsOff (configOf methods kind)) :
    isEnabled methods kind = false := by
  rw [Bool.eq_false_iff, ne_eq, isEnabled_iff, Entries.getD]
  rcases h.enabled with hnone | hfalse
  · simp [hnone]
  · simp [hfalse]

theorem fileMethod_eq (h : methods.SameUpTo MethodKind.BothOff methods') :
    fileMethod methods = fileMethod methods' := by
  rcases configOf_eq_or_isOff h .file with heq | ⟨hleft, hright⟩
  · rw [fileMethod, fileMethod, isEnabled, isEnabled, heq]
  · rw [fileMethod, fileMethod, isEnabled_of_isOff hleft, isEnabled_of_isOff hright]
    rfl

theorem ldapMethod_eq (h : methods.SameUpTo MethodKind.BothOff methods') :
    ldapMethod methods = ldapMethod methods' := by
  rcases configOf_eq_or_isOff h .ldap with heq | ⟨hleft, hright⟩
  · rw [ldapMethod, ldapMethod, isEnabled, isEnabled, heq]
  · rw [ldapMethod, ldapMethod, isEnabled_of_isOff hleft, isEnabled_of_isOff hright]
    rfl

theorem methodsStage_eq (h : methods.SameUpTo MethodKind.BothOff methods') :
    methodsStage methods = methodsStage methods' := by
  rw [methodsStage, methodsStage, methodKinds_eq h, fileMethod_eq h, ldapMethod_eq h]

end Validation

namespace Document.SameWhereOn

variable {d d' : Document} (h : d.SameWhereOn d')

include h

theorem shape_eq : Validation.shape d = Validation.shape d' := by
  obtain ⟨es, fs, hes, hfs, hsame⟩ := h
  have hsections : (fun name => Validation.require (es.getD name).isMapping
        (.sectionShape name (es.getD name))) =
      fun name => Validation.require (fs.getD name).isMapping
        (.sectionShape name (fs.getD name)) := by
    funext name
    rcases hsame.getD name with heq | ⟨-, ms, ms', hms, hms', -⟩
    · rw [heq]
    · rw [Document.isMapping, hms, Document.isMapping, hms']
      rfl
  simp only [Validation.shape, hes, hfs, hsections]
  rw [hsame.findSome?_eq fun _ _ _ _ => rfl]

theorem limits_eq : d.sectionEntries "limits" = d'.sectionEntries "limits" := by
  obtain ⟨es, fs, hes, hfs, hsame⟩ := h
  rw [sectionEntries, sectionEntries, entries_of_entries? hes, entries_of_entries? hfs]
  rcases hsame.getD "limits" with heq | ⟨hkey, -⟩
  · rw [heq]
  · exact absurd (congrArg Key.shown hkey) (by decide)

theorem methods_sameUpTo :
    (d.sectionEntries "methods").SameUpTo MethodKind.BothOff (d'.sectionEntries "methods") := by
  obtain ⟨es, fs, hes, hfs, hsame⟩ := h
  rw [sectionEntries, sectionEntries, entries_of_entries? hes, entries_of_entries? hfs]
  rcases hsame.getD "methods" with heq | ⟨-, ms, ms', hms, hms', hmethods⟩
  · rw [heq]
    exact List.forall₂_same.2 fun _ _ => ⟨rfl, .inl rfl⟩
  · rwa [entries_of_entries? hms, entries_of_entries? hms']

/-- Values in methods that are off are no cause of a violation. -/
theorem violation?_eq : d.violation? = d'.violation? := by
  rw [violation?, violation?, h.shape_eq, h.limits_eq,
    Validation.methodsStage_eq h.methods_sameUpTo]

theorem validate_eq : d.validate = d'.validate := by
  rw [validate, validate, h.violation?_eq]

end Document.SameWhereOn

/-! ## Compiling -/

/-- The methods that are on. -/
def Methods.on (ms : Methods) : Methods where
  file := ms.file.filter fun m => m.enabled.isGiven
  ldap := ms.ldap.filter fun m => m.enabled.isGiven

/-- The directives are those of the methods that are on. -/
theorem Directive.authLines_on (ms : Methods) (realm : Document) :
    authLines ms.on realm = authLines ms realm := by
  simp only [authLines, Methods.on, Option.filter_filter, Bool.and_self]

namespace Methods

section Reading

variable {α : Type} (read : Document → Except Fault α) (enabled : α → Document)

/-- The method that a document describes, if there is a document and the method is on. -/
def readOn (d : Option Document) : Except Fault (Option α) :=
  Option.filter (fun m => (enabled m).isGiven) <$>
    match d with
    | some d => some <$> read d
    | none => pure none

/-- The documents describe methods that are not on. -/
def DescribeOff (d d' : Document) : Prop :=
  ∃ m m', read d = .ok m ∧ read d' = .ok m' ∧ (enabled m).isGiven = false ∧
    (enabled m').isGiven = false

variable {read enabled}

theorem readOn_eq {R : Document → Document → Prop} {d d' : Option Document}
    (h : Option.Rel (fun v v' => v = v' ∨ R v v') d d')
    (hR : ∀ v v', R v v' → DescribeOff read enabled v v') :
    readOn read enabled d = readOn read enabled d' := by
  cases h with
  | none => rfl
  | some hv =>
    rcases hv with rfl | hv
    · rfl
    · obtain ⟨m, m', hm, hm', hoff, hoff'⟩ := hR _ _ hv
      have hnone : ∀ m, (enabled m).isGiven = false →
          (some m).filter (fun m => (enabled m).isGiven) = none := fun m hoff =>
        Option.filter_some_neg (p := fun m => (enabled m).isGiven) hoff
      simp only [readOn, hm, hm', Except.map_ok, hnone m hoff, hnone m' hoff']

end Reading

theorem on_bind (file : Except Fault (Option FileMethod))
    (ldap : Except Fault (Option LdapMethod)) :
    (Methods.on <$> do return ⟨← file, ← ldap⟩) = do
      return ⟨← Option.filter (fun m => m.enabled.isGiven) <$> file,
        ← Option.filter (fun m => m.enabled.isGiven) <$> ldap⟩ := by
  cases file <;> cases ldap <;> rfl

/-- The methods of a section that are on. -/
theorem on_ofEntries (es : Entries) : Methods.on <$> Methods.ofEntries es = do
    let file ← readOn FileMethod.ofDocument FileMethod.enabled (es.get? "file")
    let ldap ← readOn LdapMethod.ofDocument LdapMethod.enabled (es.get? "ldap")
    return ⟨file, ldap⟩ := by
  unfold Methods.ofEntries
  cases es.get? "file" <;> cases es.get? "ldap" <;> exact on_bind _ _

theorem describeOff_file {d d' : Document} (h : MethodKind.BothOff (.text "file") d d') :
    DescribeOff FileMethod.ofDocument FileMethod.enabled d d' := by
  obtain ⟨kind, hkind, es, fs, hes, hfs, hleft, hright⟩ := h
  refine ⟨.ofEntries es, .ofEntries fs, ?_, ?_, hleft.isGiven_flag, hright.isGiven_flag⟩
  · rw [FileMethod.ofDocument, Document.givenEntries, hes]
    rfl
  · rw [FileMethod.ofDocument, Document.givenEntries, hfs]
    rfl

theorem describeOff_ldap {d d' : Document} (h : MethodKind.BothOff (.text "ldap") d d') :
    DescribeOff LdapMethod.ofDocument LdapMethod.enabled d d' := by
  obtain ⟨kind, hkind, es, fs, hes, hfs, hleft, hright⟩ := h
  refine ⟨.ofEntries es, .ofEntries fs, ?_, ?_, hleft.isGiven_flag, hright.isGiven_flag⟩
  · rw [LdapMethod.ofDocument, Document.givenEntries, hes]
    rfl
  · rw [LdapMethod.ofDocument, Document.givenEntries, hfs]
    rfl

/-- The methods that are on do not depend on those that are off in both. -/
theorem on_ofEntries_eq {es fs : Entries} (h : es.SameUpTo MethodKind.BothOff fs) :
    Methods.on <$> Methods.ofEntries es = Methods.on <$> Methods.ofEntries fs := by
  rw [on_ofEntries, on_ofEntries, readOn_eq (h.get? "file") fun _ _ => describeOff_file,
    readOn_eq (h.get? "ldap") fun _ _ => describeOff_ldap]

end Methods

namespace Policy

/-- Policies whose methods are the same where they are on have the same blocks. -/
theorem blocks_eq {ms ms' : Methods} (h : ms.on = ms'.on) (limits : Limits) (realm : Document) :
    blocks ⟨ms, limits⟩ realm = blocks ⟨ms', limits⟩ realm := by
  rw [blocks, blocks, Directive.authBlock, Directive.authBlock, ← Directive.authLines_on,
    ← Directive.authLines_on ms', h]

/-- Reading the methods and the limits, and compiling them. -/
def compileSections (methods : Except Fault Methods) (limits : Except Fault Limits)
    (realm : Document) : Except Fault Blocks := do
  blocks ⟨← methods, ← limits⟩ realm

theorem compileSections_eq {x y : Except Fault Methods} (h : Methods.on <$> x = Methods.on <$> y)
    (limits : Except Fault Limits) (realm : Document) :
    compileSections x limits realm = compileSections y limits realm := by
  cases x with
  | error f =>
    cases y with
    | error f' => rw [Except.error.inj h]
    | ok ms' => cases h
  | ok ms =>
    cases y with
    | error f' => cases h
    | ok ms' =>
      cases limits with
      | error f => rfl
      | ok l => exact blocks_eq (Except.ok.inj h) l realm

theorem ofDocument_blocks {d : Document} {es : Entries} (hes : d.entries? = some es)
    (realm : Document) : (ofDocument d >>= fun p => p.blocks realm) =
      compileSections ((es.getD "methods").givenEntries >>= Methods.ofEntries)
        (Limits.ofDocument (es.getD "limits")) realm := by
  simp only [ofDocument, Document.givenEntries, hes, compileSections, bind_assoc, pure_bind]
  rfl

variable {d d' : Document}

theorem ofDocument_blocks_eq (h : d.SameWhereOn d') (realm : Document) :
    (ofDocument d >>= fun p => p.blocks realm) = ofDocument d' >>= fun p => p.blocks realm := by
  obtain ⟨es, fs, hes, hfs, hsame⟩ := h
  have hlimits : es.getD "limits" = fs.getD "limits" := (hsame.getD "limits").resolve_right
    fun hkey => absurd (congrArg Key.shown hkey.1) (by decide)
  rw [ofDocument_blocks hes, ofDocument_blocks hfs, hlimits]
  rcases hsame.getD "methods" with heq | ⟨-, ms, ms', hms, hms', hmethods⟩
  · rw [heq]
  · rw [Document.givenEntries, Document.givenEntries, hms, hms']
    exact compileSections_eq (Methods.on_ofEntries_eq hmethods) _ realm

/-- A document compiles by itself if it is accepted, to the blocks of what it describes. -/
theorem compile_self {d : Document} {es : Entries} (hes : d.entries? = some es)
    (realm : Document) : compile .null d realm =
      d.validate >>= fun _ => Rejection.ofFault (ofDocument d >>= fun p => p.blocks realm) := by
  have hmerged : merged .null d = d := by
    have hd : d ≠ .null := by
      rintro rfl
      cases hes
    unfold merged
    split
    · exact absurd rfl hd
    · exact Document.merge_null d
  rw [compile, resolve, hmerged]
  cases d.validate with
  | error r => rfl
  | ok u => cases hp : ofDocument d <;> rfl

/-- Fields of methods that are off do not matter : documents that differ in them only are
accepted or refused alike, for the same violation, and compile alike, to the same blocks. -/
theorem compile_of_sameWhereOn (h : d.SameWhereOn d') (realm : Document) :
    d.validate = d'.validate ∧ compile .null d realm = compile .null d' realm := by
  have hvalidate := h.validate_eq
  have hblocks := ofDocument_blocks_eq h realm
  obtain ⟨es, fs, hes, hfs, -⟩ := h
  refine ⟨hvalidate, ?_⟩
  rw [compile_self hes, compile_self hfs, hvalidate, hblocks]

/-- A file method that is on, beside a directory method with these fields. -/
def besideDirectory (fields : List (Text × Document)) : Document :=
  .mapping (namedEntries [
    ("file", .mapping (namedEntries [
      ("enabled", .bool true), ("user_file", .text "/etc/users")])),
    ("ldap", .mapping (namedEntries fields))])

/-- One user, from the user file. -/
def fileUsers (fields : List (Text × Document)) : Document :=
  .mapping (namedEntries [
    ("methods", besideDirectory fields),
    ("limits", .mapping (namedEntries [
      ("defaults", .sequence [.text "GET"]),
      ("users", .mapping (namedEntries [("alice", .text defaultsWord)]))]))])

theorem sameWhereOn_fileUsers {fields fields' : List (Text × Document)}
    (h : MethodKind.ldap.IsOff (namedEntries fields))
    (h' : MethodKind.ldap.IsOff (namedEntries fields')) :
    (fileUsers fields).SameWhereOn (fileUsers fields') := by
  have hldap : MethodKind.BothOff (.text "ldap") (.mapping (namedEntries fields))
      (.mapping (namedEntries fields')) := ⟨.ldap, rfl, _, _, rfl, rfl, h, h'⟩
  have hmethods : Document.SameMethods (.text "methods") (besideDirectory fields)
      (besideDirectory fields') :=
    ⟨rfl, _, _, rfl, rfl, .cons ⟨rfl, .inl rfl⟩ (.cons ⟨rfl, Or.inr hldap⟩ .nil)⟩
  exact ⟨_, _, rfl, rfl, .cons ⟨rfl, Or.inr hmethods⟩ (.cons ⟨rfl, .inl rfl⟩ .nil)⟩

/-- A directory method that is off, with a password. -/
def passwordFields : List (Text × Document) :=
  [("enabled", .bool false), ("bind_pw", .text "hunter2")]

/-- A directory method that is off, with an address that is no text. -/
def numberFields : List (Text × Document) :=
  [("url", .int 5)]

theorem distinctKeys_fileUsers : (fileUsers numberFields).DistinctKeys := by
  refine distinctKeys_namedEntries (by decide) (List.forall_mem_cons.2
    ⟨?_, List.forall_mem_singleton.2 ?_⟩)
  · refine distinctKeys_namedEntries (by decide) (List.forall_mem_cons.2
      ⟨?_, List.forall_mem_singleton.2 ?_⟩)
    · exact distinctKeys_namedEntries (by decide) (List.forall_mem_cons.2
        ⟨.scalar _, List.forall_mem_singleton.2 (.scalar _)⟩)
    · exact distinctKeys_namedEntries (by decide) (List.forall_mem_singleton.2 (.scalar _))
  · refine distinctKeys_namedEntries (by decide) (List.forall_mem_cons.2
      ⟨distinctKeys_scalars (by simp), List.forall_mem_singleton.2 ?_⟩)
    exact distinctKeys_namedEntries (by decide) (List.forall_mem_singleton.2 (.scalar _))

theorem isOff_passwordFields : MethodKind.ldap.IsOff (namedEntries passwordFields) where
  names := by decide
  enabled := .inr rfl

theorem isOff_numberFields : MethodKind.ldap.IsOff (namedEntries numberFields) where
  names := by decide
  enabled := .inl rfl

/-- The password appears nowhere : with another field in its place the blocks are the same. -/
theorem compile_of_sameWhereOn_password : ∃ b,
    compile .null (fileUsers passwordFields) (.text "Staff") = .ok b ∧
      compile .null (fileUsers numberFields) (.text "Staff") = .ok b := by
  obtain ⟨b, hb⟩ := Directive.exists_compile (.scalar .null) distinctKeys_fileUsers
    (Validation.validate_eq_ok_iff.2 (by decide +kernel)) (.inr ⟨"Staff", rfl⟩)
  have hsame := compile_of_sameWhereOn
    (sameWhereOn_fileUsers isOff_passwordFields isOff_numberFields) (.text "Staff")
  exact ⟨b, hsame.2.trans hb, hb⟩

end Policy

end AccessPolicy
