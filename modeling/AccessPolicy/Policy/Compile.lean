import AccessPolicy.Directive.Auth
import AccessPolicy.Directive.Limit
import AccessPolicy.Document.Merge
import AccessPolicy.Policy.Validate

/-!
# Compiling a policy

An override is laid over the defaults, the merged document is validated, and the two blocks
are compiled from it. `Policy.resolve` goes as far as the typed policy, `Policy.compile` to
the blocks. Either block may be empty; whoever writes them applies a fallback.
-/

namespace AccessPolicy

/-- A validated policy. -/
structure Policy where
  methods : Methods
  limits : Limits

/-- The two directive blocks. -/
structure Blocks where
  auth : Text
  limits : Text
deriving DecidableEq

namespace Policy

/-- The policy that a validated document describes. -/
def ofDocument (d : Document) : Except Fault Policy := do
  let es ← d.givenEntries
  let methods ← Methods.ofEntries (← (es.getD "methods").givenEntries)
  let limits ← Limits.ofDocument (es.getD "limits")
  return ⟨methods, limits⟩

/-- The defaults with the override laid over them; null for the defaults stands for the
default policy. -/
def merged (override defaults : Document) : Document :=
  Document.merge (match defaults with | .null => defaultPolicy | d => d) override

/-- The validated policy of an override. -/
def resolve (override defaults : Document) : Except Rejection Policy := do
  let d := merged override defaults
  d.validate
  Rejection.ofFault (ofDocument d)

/-- The blocks of a policy. -/
def blocks (p : Policy) (realm : Document) : Except Fault Blocks := do
  let auth ← Directive.authBlock p.methods realm
  let limits ← Directive.limitBlock p.limits
  return ⟨auth, limits⟩

/-- The blocks of an override. -/
def compile (override defaults realm : Document) : Except Rejection Blocks := do
  Rejection.ofFault ((← resolve override defaults).blocks realm)

end Policy

/-- One step of a session : the override is laid over the state, and the new state compiled
by itself. -/
def Policy.step (state override : Document) : Document × Except Rejection Blocks :=
  let next := Document.merge state override
  (next, Policy.compile .null next .null)

end AccessPolicy
