import AccessPolicy.Directive.Limit
import AccessPolicy.Policy.Compile

/-!
# The generated files

Two files are generated from the blocks of a policy. An empty authentication block is
replaced by a comment. An empty limit block is replaced by the fallback, which admits the
loopback addresses and the server's own name for four operations and denies the rest; it
grants more than the default policy, on purpose.
-/

namespace AccessPolicy

/-- The generated files. -/
inductive Target where
  | auth
  | limits
deriving DecidableEq, Repr

namespace Target

/-- Both files, in the order in which they are written. -/
def all : List Target := [.auth, .limits]

def fileName : Target → Text
  | .auth => "auth.conf"
  | .limits => "limits.conf"

end Target

namespace Contents

/-- The first line of every generated file. -/
def header : Text := "# Generated by httpd-policy. Do not edit.\n"

def noAuthComment : Text := "# No authentication method enabled.\n"

def fallbackComment : Text := "# Fallback: no principals in policy.\n"

/-! ## The fallback -/

def fallbackOperations : List Text := ["GET", "POST", "PUT", "DELETE"]

def loopbackAddresses : List Text := ["127.0.0.1", "::1"]

/-- Whom the fallback admits : the loopback addresses, and the server by its name if it has
one. -/
def fallbackRequirements (serverName : Document) : Except Fault (List Text) := do
  let loopback : Text := "Require ip " ++ Text.joined " " loopbackAddresses
  if serverName.isGiven then return [loopback, "Require host " ++ (← serverName.shownText)]
  else return [loopback]

/-- The limit block where no policy grants anything. The host's name stands for the server's
where none is configured. -/
def fallbackBlock (serverName : Document) (hostName : Text) : Except Fault Text := do
  let requirements ← fallbackRequirements (serverName.orText hostName)
  return Text.ofLines (Directive.limitSection fallbackOperations requirements ++
    Directive.exceptSection fallbackOperations)

/-! ## The files -/

/-- The text of a generated file, given the fallback. -/
def text (b : Blocks) (fallback : Text) : Target → Text
  | .auth => header ++ (if b.auth.isEmpty then noAuthComment else b.auth)
  | .limits => header ++ (if b.limits.isEmpty then fallbackComment ++ fallback else b.limits)

/-- The texts of the generated files. A server name that cannot be shown is a fault only
where the fallback is needed. -/
def texts (b : Blocks) (serverName : Document) (hostName : Text) :
    Except Fault (Target → Text) := do
  if b.limits.isEmpty then return text b (← fallbackBlock serverName hostName)
  else return text b []

end Contents

end AccessPolicy
