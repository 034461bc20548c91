import AccessPolicy.Document.Fault
import AccessPolicy.Policy.Vocabulary

/-!
# Authentication methods

The settings of the two kinds of authentication. A field holds whatever the document holds
for it, since nothing is required of a method that is not enabled; `enabled` counts if it is
given (`Document.isGiven`).
-/

namespace AccessPolicy

/-- Digest authentication against a local user file. -/
structure FileMethod where
  enabled : Document := .bool false
  userFile : Document := .text ""

/-- Authentication and group lookup by a directory server. -/
structure LdapMethod where
  enabled : Document := .bool false
  url : Document := .text ""
  security : Document := .text "STARTTLS"
  bindDn : Document := .text ""
  bindPassword : Document := .text ""
  searchBase : Document := .text ""
  posixGroup : Document := .bool false

/-- The methods of a policy, at most one of each kind. -/
structure Methods where
  file : Option FileMethod := none
  ldap : Option LdapMethod := none

/-- A field that is an empty text where it is not given. -/
def Entries.textField (es : Entries) (name : Text) : Document :=
  (es.getD name).orText ""

/-- A field that is false where it is missing. -/
def Entries.flag (es : Entries) (name : Text) : Document :=
  (es.get? name).getD (.bool false)

/-- The file method that entries describe. -/
def FileMethod.ofEntries (es : Entries) : FileMethod where
  enabled := es.flag "enabled"
  userFile := es.textField "user_file"

/-- The directory method that entries describe. -/
def LdapMethod.ofEntries (es : Entries) : LdapMethod where
  enabled := es.flag "enabled"
  url := es.textField "url"
  security := es.textField "security"
  bindDn := es.textField "bind_dn"
  bindPassword := es.textField "bind_pw"
  searchBase := es.textField "search_base"
  posixGroup := es.flag "posix_group"

/-- The file method that a document describes. -/
def FileMethod.ofDocument (d : Document) : Except Fault FileMethod :=
  return .ofEntries (← d.givenEntries)

/-- The directory method that a document describes. -/
def LdapMethod.ofDocument (d : Document) : Except Fault LdapMethod :=
  return .ofEntries (← d.givenEntries)

/-- Entries whose keys are all fields of a kind of method. -/
def MethodKind.checkFields (kind : MethodKind) (es : Entries) : Except Fault Unit :=
  if es.all fun e => e.1.isNamed kind.fields then .ok () else .error .unknownField

/-- The file method with these fields, each as it is given. -/
def FileMethod.ofFields (es : Entries) : Except Fault FileMethod := do
  MethodKind.file.checkFields es
  let base : FileMethod := {}
  return {
    enabled := (es.get? "enabled").getD base.enabled
    userFile := (es.get? "user_file").getD base.userFile }

/-- The directory method with these fields, each as it is given. -/
def LdapMethod.ofFields (es : Entries) : Except Fault LdapMethod := do
  MethodKind.ldap.checkFields es
  let base : LdapMethod := {}
  return {
    enabled := (es.get? "enabled").getD base.enabled
    url := (es.get? "url").getD base.url
    security := (es.get? "security").getD base.security
    bindDn := (es.get? "bind_dn").getD base.bindDn
    bindPassword := (es.get? "bind_pw").getD base.bindPassword
    searchBase := (es.get? "search_base").getD base.searchBase
    posixGroup := (es.get? "posix_group").getD base.posixGroup }

/-- The methods that the entries of a methods section describe. -/
def Methods.ofEntries (es : Entries) : Except Fault Methods := do
  let file ← match es.get? "file" with
    | some d => some <$> FileMethod.ofDocument d
    | none => pure none
  let ldap ← match es.get? "ldap" with
    | some d => some <$> LdapMethod.ofDocument d
    | none => pure none
  return ⟨file, ldap⟩

/-- The kinds whose method is there and enabled. -/
def Methods.enabled (ms : Methods) : List MethodKind :=
  (if ms.file.any fun m => m.enabled.isGiven then [.file] else []) ++
    (if ms.ldap.any fun m => m.enabled.isGiven then [.ldap] else [])

end AccessPolicy
