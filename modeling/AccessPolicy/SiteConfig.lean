import AccessPolicy.ConfigError

/-!
# The site's configuration directory

The directory is named by the environment, or stands beside the program, or is the system's.
`SiteConfig.directory` finds it; which paths are directories is asked of a predicate.
-/

namespace AccessPolicy.SiteConfig

/-- The directory of the whole system. -/
def systemDirectory : Path := .ofText "/usr/local/etc/httpd-policy"

/-- The directory beside the program's own. -/
def sibling (program : Path) : Path :=
  program.parent.child "site-config"

/-- The configuration directory. The environment, where it names one, decides alone. -/
def directory (environment : Option String) (program : Path) (isDirectory : Path → Bool) :
    Except ConfigError Path :=
  match environment.filter (· != "") with
  | some text =>
    if isDirectory (.ofText text) then .ok (.ofText text) else .error (.missingDirectory text)
  | none =>
    if isDirectory (sibling program) then .ok (sibling program)
    else if isDirectory systemDirectory then .ok systemDirectory
    else .error .noDirectory

end AccessPolicy.SiteConfig
