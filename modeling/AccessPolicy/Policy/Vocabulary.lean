import AccessPolicy.Document.View

/-!
# The vocabulary of policies

The names that a policy may use : its sections, the kinds of authentication and their
fields, the operations in their canonical order, and the three classes of principals.
`Operations.canonical` puts operation names into that order, `defaultPolicy` is the policy
that holds where nothing else is said.
-/

namespace AccessPolicy

/-- The sections of a policy. -/
def sectionNames : List Text := ["methods", "limits"]

/-! ## Authentication -/

/-- The kinds of authentication, in the order of their directives. -/
inductive MethodKind where
  | file
  | ldap
deriving DecidableEq, Repr

namespace MethodKind

def all : List MethodKind := [.file, .ldap]

def name : MethodKind → Text
  | .file => "file"
  | .ldap => "ldap"

/-- The kind with this name. -/
def ofName? (s : Text) : Option MethodKind :=
  all.find? fun kind => kind.name = s

/-- The fields of a method of this kind. -/
def fields : MethodKind → List Text
  | .file => ["enabled", "user_file"]
  | .ldap => ["enabled", "url", "security", "bind_dn", "bind_pw", "search_base", "posix_group"]

end MethodKind

/-- How a directory server may be connected to. -/
def securityModes : List Text := ["NONE", "SSL", "TLS", "STARTTLS"]

/-! ## Operations -/

/-- The operations that may be granted, in canonical order. -/
def operations : List Text :=
  ["GET", "POST", "PUT", "DELETE", "HEAD", "OPTIONS", "PATCH", "CONNECT",
   "TRACE", "PROPFIND", "PROPPATCH", "MKCOL", "COPY", "MOVE", "LOCK", "UNLOCK"]

/-- The operations among the names, each once and in canonical order. -/
def Operations.canonical (names : List Text) : List Text :=
  operations.filter fun op => names.contains op

/-- The word that points a principal at the default operations. -/
def defaultsWord : Text := "defaults"

/-! ## Principals -/

/-- The classes of principals, in the order of their directives. -/
inductive PrincipalClass where
  | hosts
  | users
  | ldapGroups
deriving DecidableEq, Repr

namespace PrincipalClass

def all : List PrincipalClass := [.hosts, .users, .ldapGroups]

def name : PrincipalClass → Text
  | .hosts => "hosts"
  | .users => "users"
  | .ldapGroups => "ldap_groups"

/-- The class with this name. -/
def ofName? (s : Text) : Option PrincipalClass :=
  all.find? fun c => c.name = s

end PrincipalClass

/-- The user name that stands for every authenticated user. -/
def validUser : Text := "valid-user"

/-- The keys of the limits section. -/
def limitNames : List Text := "defaults" :: PrincipalClass.all.map PrincipalClass.name

/-! ## The default policy -/

/-- Mapping entries from texts. -/
def namedEntries (es : List (Text × Document)) : Entries :=
  es.map fun e => (.text e.1, e.2)

/-- No authentication, and GET, POST and PUT for the loopback address. -/
def defaultPolicy : Document :=
  .mapping (namedEntries [
    ("methods", .mapping (namedEntries [
      ("file", .mapping (namedEntries [("enabled", .bool false), ("user_file", .text "")])),
      ("ldap", .mapping (namedEntries [
        ("enabled", .bool false), ("url", .text ""), ("security", .text "STARTTLS"),
        ("bind_dn", .text ""), ("bind_pw", .text ""), ("search_base", .text ""),
        ("posix_group", .bool false)]))])),
    ("limits", .mapping (namedEntries [
      ("defaults", .sequence [.text "GET", .text "POST", .text "PUT"]),
      ("hosts", .mapping (namedEntries [("127.0.0.1", .text defaultsWord)])),
      ("users", .mapping []),
      ("ldap_groups", .mapping [])]))])

end AccessPolicy
