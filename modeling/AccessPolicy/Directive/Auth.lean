import AccessPolicy.Directive.Quote
import AccessPolicy.Policy.Method
import AccessPolicy.Text.Split

/-!
# Authentication directives

The authentication block : type and realm, then the directives of each enabled method, the
file method first. The type is Digest where the file method is enabled, since a digest user
file cannot serve Basic, and Basic otherwise. Without an enabled method the block is empty.

`Directive.authLines` lists the lines and `Directive.authBlock` puts them together.
-/

namespace AccessPolicy.Directive

/-- The realm where none is given. -/
def defaultRealm : Text := "Restricted"

/-- The directives of the file method. -/
def fileLines (m : FileMethod) : Except Fault (List Text) := do
  return ["AuthDigestProvider file", "AuthUserFile " ++ (← quoteDocument m.userFile)]

/-- The text without the code points at its end that equal `c`. -/
def trimEnd (c : CodePoint) (s : Text) : Text :=
  (s.reverse.dropWhile (· == c)).reverse

/-- The search address : the server's address without slashes at its end, the search base
where there is one, and the attribute that holds the user's name. -/
def ldapUrl (m : LdapMethod) : Except Fault Text :=
  match m.url with
  | .scalar (.text url) => do
    let base ← if m.searchBase.isGiven then m.searchBase.shownText.map (.char '/' :: ·) else .ok []
    return trimEnd '/' url ++ base ++ "?uid"
  | .scalar (.bytes _) => .error .noEditing
  | _ => .error .noText

/-- The connection mode behind the search address, with a blank in front. -/
def securitySuffix (security : Document) : Except Fault Text :=
  if security.isGiven && security.text? != some "NONE" then
    security.shownText.map (.char ' ' :: ·)
  else .ok []

/-- A directive with a quoted argument, where the argument is given. -/
def optionalLine (name : Text) (argument : Document) : Except Fault (List Text) :=
  if argument.isGiven then do return [name ++ " " ++ (← quoteDocument argument)] else .ok []

/-- How group members are named : by their login name, or by their full name. -/
def groupLines (posixGroup : Document) : List Text :=
  if posixGroup.isGiven then
    ["AuthLDAPGroupAttributeIsDN off", "AuthLDAPGroupAttribute memberUid"]
  else
    ["AuthLDAPGroupAttributeIsDN on", "AuthLDAPGroupAttribute member"]

/-- The directives of the directory method, which provides Basic authentication unless the
file method provides Digest. -/
def ldapLines (m : LdapMethod) (basic : Bool) : Except Fault (List Text) := do
  let url ← ldapUrl m
  let security ← securitySuffix m.security
  let bindDn ← optionalLine "AuthLDAPBindDN" m.bindDn
  let bindPassword ← optionalLine "AuthLDAPBindPassword" m.bindPassword
  let provider : List Text := if basic then ["AuthBasicProvider ldap"] else []
  let search : Text := "AuthLDAPURL " ++ quote url ++ security
  return provider ++ search :: bindDn ++ bindPassword ++ groupLines m.posixGroup

/-- The lines of the authentication block. -/
def authLines (ms : Methods) (realm : Document) : Except Fault (List Text) :=
  let file := ms.file.filter fun m => m.enabled.isGiven
  let ldap := ms.ldap.filter fun m => m.enabled.isGiven
  if file.isNone && ldap.isNone then .ok []
  else do
    let name ← quoteDocument (realm.orText defaultRealm)
    let fromFile ← match file with
      | some m => fileLines m
      | none => pure []
    let fromLdap ← match ldap with
      | some m => ldapLines m file.isNone
      | none => pure []
    let kind : Text := "AuthType " ++ (if file.isSome then "Digest" else "Basic")
    return kind :: ("AuthName " ++ name) :: fromFile ++ fromLdap

/-- The authentication block; empty where no method is enabled. -/
def authBlock (ms : Methods) (realm : Document) : Except Fault Text := do
  return Text.ofLines (← authLines ms realm)

end AccessPolicy.Directive
