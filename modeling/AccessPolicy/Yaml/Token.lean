import AccessPolicy.Yaml.Tag

/-!
# Tokens

The pieces that a YAML text is cut into. Indentation is already resolved : a block
collection has a token where it starts and one where it ends.
-/

namespace AccessPolicy.Yaml

inductive Token where
  | streamEnd
  | directive (d : Directive)
  | documentStart
  | documentEnd
  | blockSequenceStart
  | blockMappingStart
  | blockEnd
  | flowSequenceStart
  | flowSequenceEnd
  | flowMappingStart
  | flowMappingEnd
  /-- A dash before an item of a block sequence. -/
  | blockEntry
  /-- A comma. -/
  | flowEntry
  | key
  | value
  | reference (name : String)
  | anchor (name : String)
  | tag (t : WrittenTag)
  | scalar (plain : Bool) (text : Text)
deriving DecidableEq, Repr

/-- The tokens of a text, and what is met after them. -/
structure Tokens where
  tokens : List Token
  /-- What reading on beyond the tokens comes to. -/
  ending : Problem := .malformed

end AccessPolicy.Yaml
