import AccessPolicy.Address
import AccessPolicy.Policy.Violation
import AccessPolicy.Text.Blank

/-!
# Validation

A document is checked stage by stage : its shape, the methods, what an enabled file method
and an enabled directory method need, the shape of the limits, the names of the principals,
and the operations granted. Each stage is a function to its first violation, and
`violation?` is the first violation of the first stage that has one. `validate` accepts a
document exactly when there is none.
-/

namespace AccessPolicy

namespace Validation

/-- The violation, unless the condition holds. -/
def require (condition : Bool) (v : Violation) : Option Violation :=
  if condition then none else some v

/-! ## Shape -/

/-- The document is a mapping with the two sections, both mappings, and nothing else. -/
def shape (d : Document) : Option Violation :=
  match d.entries? with
  | some es =>
    (es.findSome? fun e => require (e.1.isNamed sectionNames) (.unknownSection e.1)).or
      (sectionNames.findSome? fun name =>
        require (es.getD name).isMapping (.sectionShape name (es.getD name)))
  | none => some (.rootShape d)

/-! ## Methods -/

/-- The kind that a key names. -/
def kindOf? : Key → Option MethodKind
  | .scalar (.text s) => MethodKind.ofName? s
  | _ => none

/-- The fields of one method are known, and `enabled` is a truth value if it is there. -/
def methodFields (kind : MethodKind) (config : Entries) : Option Violation :=
  (config.findSome? fun e => require (e.1.isNamed kind.fields) (.unknownField kind e.1)).or
    (match config.get? "enabled" with
      | some v => require v.isBool (.enabledShape kind v)
      | none => none)

/-- One entry of the methods : a known kind with a mapping of its fields. -/
def method (key : Key) (config : Document) : Option Violation :=
  match kindOf? key with
  | none => some (.unknownKind key)
  | some kind =>
    match config.entries? with
    | some es => methodFields kind es
    | none => some (.methodShape kind config)

def methodKinds (methods : Entries) : Option Violation :=
  methods.findSome? fun e => method e.1 e.2

/-- The fields of the method of a kind. -/
def configOf (methods : Entries) (kind : MethodKind) : Entries :=
  (methods.getD kind.name).entries

/-- The method is there and its `enabled` is true. -/
def isEnabled (methods : Entries) (kind : MethodKind) : Bool :=
  match (configOf methods kind).getD "enabled" with
  | .bool b => b
  | _ => false

/-- An enabled file method has an absolute path to its user file. -/
def fileMethod (methods : Entries) : Option Violation :=
  if isEnabled methods .file then
    match (configOf methods .file).getD "user_file" with
    | .text s =>
      (require (!s.isEmpty) .userFileMissing).or
        (require (s.head? == some (.char '/')) (.userFileRelative s))
    | _ => some .userFileMissing
  else none

/-- The fields of the directory method that are texts if they are given. -/
def optionalTexts : List Text := ["bind_dn", "bind_pw", "search_base"]

/-- An optional text field of the directory method. -/
def optionalText (config : Entries) (name : Text) : Option Violation :=
  match config.getD name with
  | .null => none
  | .text _ => none
  | d => some (.fieldShape name d)

/-- The connection mode, if one is given, is known. -/
def security (config : Entries) : Option Violation :=
  match config.getD "security" with
  | .text s => require (s.isEmpty || securityModes.contains s) (.unknownSecurity (.text s))
  | d => require (!d.isGiven) (.unknownSecurity d)

/-- `posix_group` is there and a truth value. -/
def posixGroup (config : Entries) : Option Violation :=
  match config.get? "posix_group" with
  | none => some .posixGroupMissing
  | some v => require v.isBool (.posixGroupShape v)

/-- The address of the server is a text and not empty. -/
def url (config : Entries) : Option Violation :=
  match config.getD "url" with
  | .text s => require (!s.isEmpty) .urlMissing
  | _ => some .urlMissing

/-- An enabled directory method has all that its directives need. -/
def ldapMethod (methods : Entries) : Option Violation :=
  if isEnabled methods .ldap then
    let config := configOf methods .ldap
    (posixGroup config).or <| (url config).or <|
      (optionalTexts.findSome? (optionalText config)).or (security config)
  else none

/-! ## Limits -/

/-- The limits have only their own keys. -/
def limitKeys (limits : Entries) : Option Violation :=
  limits.findSome? fun e => require (e.1.isNamed limitNames) (.unknownLimit e.1)

/-- Each map of principals is missing, null or a mapping. -/
def principalShapes (limits : Entries) : Option Violation :=
  PrincipalClass.all.findSome? fun c =>
    match limits.getD c.name with
    | .null => none
    | d => require d.isMapping (.principalsShape c d)

/-- The principals of a class with what they are granted. -/
def principalsOf (limits : Entries) (c : PrincipalClass) : Entries :=
  (limits.getD c.name).entries

def hostName (key : Key) : Option Violation :=
  require (Address.isBlock key.shown) (.hostAddress key)

/-- A user name is a text of printable characters without blanks, and not empty. -/
def userName (key : Key) : Option Violation :=
  match key with
  | .scalar (.text s) =>
    (require (!s.isEmpty) (.userEmpty key)).or
      (require (s.all fun c => c.isPrintable && !c.isBlank) (.userCharacters key))
  | _ => some (.userEmpty key)

/-- A group name is a printable text that is not all blank. -/
def groupName (key : Key) : Option Violation :=
  match key with
  | .scalar (.text s) =>
    (require (!s.all CodePoint.isBlank) (.groupEmpty key)).or
      (require (s.all CodePoint.isPrintable) (.groupCharacters key))
  | _ => some (.groupEmpty key)

/-- The names of all principals are usable. -/
def principalNames (limits : Entries) : Option Violation :=
  ((principalsOf limits .hosts).findSome? fun e => hostName e.1).or <|
    ((principalsOf limits .users).findSome? fun e => userName e.1).or
      ((principalsOf limits .ldapGroups).findSome? fun e => groupName e.1)

/-! ## Operations -/

/-- One member of a list of operations. -/
def operation (place : GrantPlace) (d : Document) : Option Violation :=
  match d with
  | .text s => require (operations.contains s) (.unknownOperation place d)
  | _ => some (.unknownOperation place d)

/-- A list of operations is not empty and holds known operations only. -/
def operationList (place : GrantPlace) (d : Document) : Option Violation :=
  match d.items? with
  | some [] => some (.operationsEmpty place)
  | some items => items.findSome? (operation place)
  | none => some (.operationsShape place d)

/-- What a principal is granted : the defaults, or a list of its own. -/
def grant (place : GrantPlace) (d : Document) : Option Violation :=
  match d with
  | .null => none
  | .text s => if s = defaultsWord then none else operationList place d
  | _ => operationList place d

def operationSets (limits : Entries) : Option Violation :=
  (operationList .defaults (limits.getD "defaults")).or <|
    PrincipalClass.all.findSome? fun c =>
      (principalsOf limits c).findSome? fun e => grant (.principal c e.1) e.2

/-! ## The whole document -/

/-- The first violation of the methods. -/
def methodsStage (methods : Entries) : Option Violation :=
  (methodKinds methods).or <| (fileMethod methods).or (ldapMethod methods)

/-- The first violation of the limits. -/
def limitsStage (limits : Entries) : Option Violation :=
  (limitKeys limits).or <| (principalShapes limits).or <|
    (principalNames limits).or (operationSets limits)

end Validation

/-- The section of a document with this name. -/
def Document.sectionEntries (d : Document) (name : Text) : Entries :=
  (d.entries.getD name).entries

/-- The first violation of a document. -/
def Document.violation? (d : Document) : Option Violation :=
  (Validation.shape d).or <|
    (Validation.methodsStage (d.sectionEntries "methods")).or
      (Validation.limitsStage (d.sectionEntries "limits"))

/-- Accepts a document that has no violation. -/
def Document.validate (d : Document) : Except Rejection Unit :=
  match d.violation? with
  | some v => .error v.rejection
  | none => .ok ()

end AccessPolicy
