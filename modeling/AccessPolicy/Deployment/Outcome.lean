import AccessPolicy.Document.View
import AccessPolicy.Files.Path

/-!
# Outcomes

What writing the generated files came to, and its form as a document.
-/

namespace AccessPolicy

/-- What a deployment came to. -/
structure Outcome where
  success : Bool
  message : Text
  /-- The files that were or would be written. -/
  changed : List Path := []
  usedFallback : Bool := false
  authWritten : Bool := false
  dryRun : Bool := false
deriving DecidableEq

/-- The outcome as entries, with how long it took. -/
def Outcome.entries (o : Outcome) (duration : Document) : Entries := [
  (.text "success", .bool o.success),
  (.text "message", .text o.message),
  (.text "duration_seconds", duration),
  (.text "changed", .sequence (o.changed.map fun p => .text p.text)),
  (.text "used_limit_fallback", .bool o.usedFallback),
  (.text "auth_written", .bool o.authWritten),
  (.text "dry_run", .bool o.dryRun)]

end AccessPolicy
