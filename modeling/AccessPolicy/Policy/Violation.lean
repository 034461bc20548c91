import AccessPolicy.Document.Copy
import AccessPolicy.Document.Fault
import AccessPolicy.Policy.Vocabulary
import AccessPolicy.Text.Split

/-!
# Violations

What can be wrong with a policy document, one constructor for each cause. A violation has a
code (`Violation.code`), the path of the offending field (`Violation.path`) and a reason
(`Violation.reason`); `Violation.message` is the three together. A value in a reason is shown
as merging copied it.

A policy is refused (`Rejection`) for a violation, or for a fault that is met while it is
compiled. A violation whose words cannot be shown is itself a fault (`Violation.rejection`).
-/

namespace AccessPolicy

/-- Where a list of operations stands. -/
inductive GrantPlace where
  | defaults
  | principal (c : PrincipalClass) (name : Key)

/-- Why a document is no policy. -/
inductive Violation where
  | rootShape (found : Document)
  | unknownSection (key : Key)
  | sectionShape (name : Text) (found : Document)
  | unknownKind (key : Key)
  | methodShape (kind : MethodKind) (found : Document)
  | unknownField (kind : MethodKind) (key : Key)
  | enabledShape (kind : MethodKind) (found : Document)
  | userFileMissing
  | userFileRelative (path : Text)
  | posixGroupMissing
  | posixGroupShape (found : Document)
  | urlMissing
  | fieldShape (name : Text) (found : Document)
  | unknownSecurity (found : Document)
  | unknownLimit (key : Key)
  | principalsShape (c : PrincipalClass) (found : Document)
  | hostAddress (key : Key)
  | userEmpty (key : Key)
  | userCharacters (key : Key)
  | groupEmpty (key : Key)
  | groupCharacters (key : Key)
  | operationsShape (place : GrantPlace) (found : Document)
  | operationsEmpty (place : GrantPlace)
  | unknownOperation (place : GrantPlace) (found : Document)

/-- The path of a list of operations. -/
def GrantPlace.path : GrantPlace → Text
  | .defaults => "limits.defaults"
  | .principal c name => "limits." ++ c.name ++ "." ++ name.shown

/-- The path can be shown. -/
def GrantPlace.isShowable : GrantPlace → Bool
  | .defaults => true
  | .principal _ name => name.isShowable

namespace Violation

/-- The code of the rule that is broken. -/
def code : Violation → String
  | .rootShape _ => "E100"
  | .unknownSection _ => "E100"
  | .sectionShape _ _ => "E100"
  | .unknownKind _ => "E101"
  | .methodShape _ _ => "E102"
  | .unknownField _ _ => "E101"
  | .enabledShape _ _ => "E102"
  | .userFileMissing => "E103"
  | .userFileRelative _ => "E103"
  | .posixGroupMissing => "E103"
  | .posixGroupShape _ => "E102"
  | .urlMissing => "E103"
  | .fieldShape _ _ => "E102"
  | .unknownSecurity _ => "E103"
  | .unknownLimit _ => "E100"
  | .principalsShape _ _ => "E100"
  | .hostAddress _ => "E104"
  | .userEmpty _ => "E106"
  | .userCharacters _ => "E106"
  | .groupEmpty _ => "E106"
  | .groupCharacters _ => "E106"
  | .operationsShape _ _ => "E105"
  | .operationsEmpty _ => "E105"
  | .unknownOperation _ _ => "E105"

/-- The path of the offending field. -/
def path : Violation → Text
  | .rootShape _ => "<root>"
  | .unknownSection key => key.shown
  | .sectionShape name _ => name
  | .unknownKind key => "methods." ++ key.shown
  | .methodShape kind _ => "methods." ++ kind.name
  | .unknownField kind key => "methods." ++ kind.name ++ "." ++ key.shown
  | .enabledShape kind _ => "methods." ++ kind.name ++ ".enabled"
  | .userFileMissing => "methods.file.user_file"
  | .userFileRelative _ => "methods.file.user_file"
  | .posixGroupMissing => "methods.ldap.posix_group"
  | .posixGroupShape _ => "methods.ldap.posix_group"
  | .urlMissing => "methods.ldap.url"
  | .fieldShape name _ => "methods.ldap." ++ name
  | .unknownSecurity _ => "methods.ldap.security"
  | .unknownLimit key => "limits." ++ key.shown
  | .principalsShape c _ => "limits." ++ c.name
  | .hostAddress key => "limits.hosts." ++ key.shown
  | .userEmpty key => "limits.users." ++ key.shown
  | .userCharacters key => "limits.users." ++ key.shown
  | .groupEmpty key => "limits.ldap_groups." ++ key.shown
  | .groupCharacters key => "limits.ldap_groups." ++ key.shown
  | .operationsShape place _ => place.path
  | .operationsEmpty place => place.path
  | .unknownOperation place _ => place.path

/-- What is wrong there. -/
def reason : Violation → Text
  | .rootShape found => "expected mapping, got " ++ found.kindName
  | .unknownSection _ => "unknown top-level key"
  | .sectionShape _ found => "expected mapping, got " ++ found.kindName
  | .unknownKind _ =>
    "unknown method kind (expected one of: " ++
      Text.joined ", " (MethodKind.all.map MethodKind.name) ++ ")"
  | .methodShape _ found => "expected mapping, got " ++ found.kindName
  | .unknownField _ _ => "unknown field"
  | .enabledShape _ found => "expected boolean, got " ++ found.kindName
  | .userFileMissing => "required when file auth is enabled"
  | .userFileRelative path => "must be an absolute path, got '" ++ path ++ "'"
  | .posixGroupMissing => "required when ldap auth is enabled"
  | .posixGroupShape found => "expected boolean, got " ++ found.kindName
  | .urlMissing => "required when ldap auth is enabled"
  | .fieldShape _ found => "expected string, got " ++ found.kindName
  | .unknownSecurity found =>
    "unknown mode '" ++ found.copied.shown ++ "' (expected one of: " ++
      Text.joined ", " securityModes ++ ")"
  | .unknownLimit _ => "unknown key"
  | .principalsShape _ found => "expected mapping, got " ++ found.kindName
  | .hostAddress _ => "not a valid IP address or CIDR block"
  | .userEmpty _ => "user name must be a non-empty string"
  | .userCharacters _ => "user name must not contain whitespace or control characters"
  | .groupEmpty _ => "group DN must be a non-empty string"
  | .groupCharacters _ => "group DN must not contain control characters"
  | .operationsShape _ found =>
    "expected list of HTTP methods or '" ++ defaultsWord ++ "', got " ++ found.kindName
  | .operationsEmpty _ => "operation set is empty"
  | .unknownOperation _ found => "unknown HTTP method '" ++ found.copied.shown ++ "'"

/-- Code, path and reason in one line. -/
def message (v : Violation) : Text :=
  v.code ++ ": " ++ v.path ++ ": " ++ v.reason

/-- The keys and values that the path and the reason show can be shown. -/
def isShowable : Violation → Bool
  | .unknownSection key => key.isShowable
  | .unknownKind key => key.isShowable
  | .unknownField _ key => key.isShowable
  | .unknownSecurity found => found.isShowable
  | .unknownLimit key => key.isShowable
  | .hostAddress key => key.isShowable
  | .userEmpty key => key.isShowable
  | .userCharacters key => key.isShowable
  | .groupEmpty key => key.isShowable
  | .groupCharacters key => key.isShowable
  | .operationsShape place _ => place.isShowable
  | .operationsEmpty place => place.isShowable
  | .unknownOperation place found => place.isShowable && found.isShowable
  | _ => true

end Violation

/-- Why a document is refused. -/
inductive Rejection where
  | violation (v : Violation)
  | fault (f : Fault)

def Rejection.ofFault {α : Type} : Except Fault α → Except Rejection α
  | .ok a => .ok a
  | .error f => .error (.fault f)

/-- The refusal for a violation. -/
def Violation.rejection (v : Violation) : Rejection :=
  if v.isShowable then .violation v else .fault .longNumeral

end AccessPolicy
