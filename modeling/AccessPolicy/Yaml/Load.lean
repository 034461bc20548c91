import AccessPolicy.Yaml.Grammar
import AccessPolicy.Yaml.Lexer
import AccessPolicy.Yaml.Value

/-!
# Reading YAML

`load` reads the document of a file's bytes : UTF-8 text with any line ends, cut into
tokens, read as nodes, and made into values. A text without a document gives null.
-/

namespace AccessPolicy.Yaml

/-- The outline of a source; none where there is no document. -/
def outlineOf (s : Source) : Except Problem (Option Outline) :=
  Outline.ofTokens (Tokens.ofSource s)

/-- The document of a source; null where there is none. -/
def loadSource (s : Source) : Except Problem Document := do
  match ← outlineOf s with
  | none => return .null
  | some o => o.document

/-- The document of a file's bytes. -/
def load (bytes : List UInt8) : Except Problem Document :=
  loadSource (.ofBytes bytes)

end AccessPolicy.Yaml
