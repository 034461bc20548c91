import AccessPolicy.ConfigError
import AccessPolicy.Document.Fault
import AccessPolicy.Text.Numeral
import AccessPolicy.Text.Sorted

/-!
# Server settings

Where and how the compiled blocks are written. Settings come from a mapping whose keys must
be known; a value is kept as it is, except that a text for the directory becomes a path and
a text for the permission bits is read as an octal number (`Settings.ofDocument`).
-/

namespace AccessPolicy

/-- The directory that receives the files, if it was given as a path. -/
inductive Location where
  | path (p : Path)
  | other (d : Document)

/-- The settings of a server. -/
structure Settings where
  confDir : Location := .path (.ofText "/etc/apache2/auth.d")
  realm : Document := .text "Restricted"
  owner : Document := .text ""
  group : Document := .text ""
  fileMode : Document := .int 0o640
  serverName : Document := .text ""
  listenPort : Document := .int 443
  proxyPort : Document := .int 8080
  cipherSuite : Document := .text "HIGH:!aNULL:!MD5"
  protocols : Document := .sequence [.text "-all", .text "+TLSv1.2", .text "+TLSv1.3"]
  verifyClient : Document := .text "none"
  verifyDepth : Document := .int 1

namespace Settings

/-- The names of the settings. -/
def names : List Text :=
  ["conf_dir", "realm", "owner", "group", "file_mode", "server_name", "listen_port",
   "proxy_port", "ssl_cipher_suite", "ssl_protocols", "ssl_verify_client", "ssl_verify_depth"]

/-- Why a document is no settings. -/
inductive Rejection where
  | config (e : ConfigError)
  | fault (f : Fault)

/-- The directory that a document names. -/
def locationOf : Document → Location
  | .scalar (.text s) => .path (.ofText s)
  | d => .other d

/-- The permission bits that a document gives. -/
def modeOf : Document → Except ConfigError Document
  | .scalar (.text s) =>
    match Text.readInteger 8 s.chars with
    | some n => .ok (.int n)
    | none => .error (.invalidMode s)
  | d => .ok d

/-- The settings that entries with known keys give. -/
def ofEntries (es : Entries) : Except ConfigError Settings := do
  let base : Settings := {}
  let field (name : Text) (default : Document) : Document := (es.get? name).getD default
  let fileMode ← modeOf (field "file_mode" base.fileMode)
  return {
    confDir := ((es.get? "conf_dir").map locationOf).getD base.confDir
    realm := field "realm" base.realm
    owner := field "owner" base.owner
    group := field "group" base.group
    fileMode := fileMode
    serverName := field "server_name" base.serverName
    listenPort := field "listen_port" base.listenPort
    proxyPort := field "proxy_port" base.proxyPort
    cipherSuite := field "ssl_cipher_suite" base.cipherSuite
    protocols := field "ssl_protocols" base.protocols
    verifyClient := field "ssl_verify_client" base.verifyClient
    verifyDepth := field "ssl_verify_depth" base.verifyDepth }

/-- The member names no setting. -/
def isUnknown (d : Document) : Bool :=
  match d with
  | .text s => !names.contains s
  | _ => true

/-- The error for members that name no setting : they are listed in order if all are texts. -/
def unknownSettings (unknown : List Document) : Rejection :=
  let texts := unknown.filterMap Document.text?
  if texts.length = unknown.length then
    .config (.unknownSettings (Sorted.sort Text.le texts))
  else .fault .noNames

/-- The settings that a document gives; one that counts as not given gives none. -/
def ofDocument (d : Document) : Except Rejection Settings :=
  if !d.isGiven then .ok {}
  else
    match d.members? with
    | none => .error (.fault .noMembers)
    | some members =>
      if (Document.toKeys? members).isNone then .error (.fault .noKey)
      else
        let unknown := members.filter isUnknown
        if !unknown.isEmpty then .error (unknownSettings unknown)
        else
          match d.entries? with
          | some es => (ofEntries es).mapError .config
          | none => .error (.fault .noFields)

/-- The settings that go to the server as they are. -/
def passthrough (s : Settings) : Except Fault Entries := do
  let protocols ← s.protocols.members
  return [
    (.text "listen_port", s.listenPort),
    (.text "proxy_port", s.proxyPort),
    (.text "ssl_cipher_suite", s.cipherSuite),
    (.text "ssl_protocols", .sequence protocols),
    (.text "ssl_verify_client", s.verifyClient),
    (.text "ssl_verify_depth", s.verifyDepth)]

end Settings

end AccessPolicy
