import AccessPolicy.Document.View
import AccessPolicy.Files.Path

/-!
# Configuration errors

What can be wrong with the site's configuration apart from the policy itself, one
constructor for each cause, and `ConfigError.message`.
-/

namespace AccessPolicy

/-- The variable that names the site's configuration directory. -/
def siteVariable : String := "HTTPD_POLICY_ETC"

inductive ConfigError where
  /-- Settings that no server has, in order. -/
  | unknownSettings (names : List Text)
  /-- Permission bits that are no octal number. -/
  | invalidMode (text : Text)
  /-- The environment names a directory that is not there. -/
  | missingDirectory (text : Text)
  /-- No configuration directory was found. -/
  | noDirectory
  | invalidYaml (path : Path)
  | topLevelShape (path : Path) (found : Document)
  | serverShape (path : Path)

def ConfigError.message : ConfigError → Text
  | .unknownSettings names =>
    "Unknown server setting(s) in site.yaml: " ++ Text.joined ", " names
  | .invalidMode text => "Invalid file_mode '" ++ text ++ "': expected octal string"
  | .missingDirectory text => siteVariable ++ "=" ++ text ++ " does not exist"
  | .noDirectory =>
    "Cannot find site-config directory. Set " ++ siteVariable ++
      " or clone site-config as sibling directory."
  | .invalidYaml path => "Invalid YAML in " ++ path.text
  | .topLevelShape path found =>
    "Expected a mapping in " ++ path.text ++ ", got " ++ found.kindName
  | .serverShape path => "'server' in " ++ path.text ++ " must be a mapping"

end AccessPolicy
