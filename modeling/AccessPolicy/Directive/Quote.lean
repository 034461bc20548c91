import AccessPolicy.Document.Fault

/-!
# Quoted arguments

An argument of a directive is written in double quotes, with a backslash in front of every
quote and every backslash in it. `Directive.quote` is the form of a text.
-/

namespace AccessPolicy.Directive

/-- One code point inside quotes. -/
def escape (c : CodePoint) : Text :=
  if c = .char '\\' ∨ c = .char '\x22' then ['\\', c] else [c]

/-- The quoted form of a text. -/
def quote (s : Text) : Text :=
  .char '\x22' :: s.flatMap escape ++ [.char '\x22']

/-- The quoted form of a document that is a text. -/
def quoteDocument : Document → Except Fault Text
  | .scalar (.text s) => .ok (quote s)
  | .scalar (.bytes _) => .error .noEditing
  | .scalar (.date _) => .error .noEditing
  | .scalar (.moment _) => .error .noEditing
  | _ => .error .noText

end AccessPolicy.Directive
