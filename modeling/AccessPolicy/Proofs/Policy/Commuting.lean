import AccessPolicy.Proofs.Document.Commuting
import AccessPolicy.Proofs.Policy.OrderFree

/-!
# Compiling after overrides that commute

Compatible overrides leave the same nested mappings in either order
(`Document.merge_right_comm`), and the compiler does not tell such defaults apart, under
whatever override (`Policy.compile_akin`). So two sites may lay their overrides over a policy
in either order, and it compiles to the same blocks (`Policy.compile_merge_comm`).
-/

namespace AccessPolicy

open Document (SameMappings)

namespace Policy

variable {base o o' : Document}

/-- Compatible overrides laid over a base in either order leave the same nested mappings, and
as defaults these compile to the same blocks or not at all. -/
theorem compile_merge_comm (hbase : base.IsBase) (ho : o.IsBase) (ho' : o'.IsBase)
    (h : o.Compatible o') :
    SameMappings ((base.merge o).merge o') ((base.merge o').merge o) ∧
      ∀ override : Document, override.DistinctKeys → ∀ (realm : Document) (b : Blocks),
        compile override ((base.merge o).merge o') realm = .ok b ↔
          compile override ((base.merge o').merge o) realm = .ok b := by
  obtain ⟨hbase, -⟩ := hbase
  obtain ⟨hd, hfinite⟩ := ho
  obtain ⟨hd', hfinite'⟩ := ho'
  have hsame := Document.merge_right_comm hfinite hfinite' hbase hd hd' h
  refine ⟨hsame, fun override hoverride realm b => ?_⟩
  have hdefaults := hsame.akin ((hbase.merge hd).merge hd') ((hbase.merge hd').merge hd) .policy
  exact compile_akin realm ⟨.of_order (.refl _ _), hoverride, hoverride⟩ hdefaults b

/-- A base that says null in the place of the users. -/
def closedBase : Document :=
  .mapping (namedEntries [("methods", .mapping []),
    ("limits", .mapping (namedEntries [("defaults", .sequence [.text "GET"]), ("users", .null)]))])

/-- Lets one user in. -/
def aliceOverride : Document :=
  .mapping (namedEntries [("limits", .mapping (namedEntries [
    ("users", .mapping (namedEntries [("alice", .sequence [.text "PUT"])]))]))])

/-- Lets another user and a network in. -/
def networkOverride : Document :=
  .mapping (namedEntries [("limits", .mapping (namedEntries [
    ("hosts", .mapping (namedEntries [("10.0.0.0/8", .text defaultsWord)])),
    ("users", .mapping (namedEntries [("bob", .text defaultsWord)]))]))])

theorem distinctKeys_closedBase : closedBase.DistinctKeys := by
  refine distinctKeys_namedEntries (by decide) (List.forall_mem_cons.2
    ⟨.mapping .nil nofun, List.forall_mem_singleton.2 ?_⟩)
  exact distinctKeys_namedEntries (by decide) (List.forall_mem_cons.2
    ⟨distinctKeys_scalars (by simp), List.forall_mem_singleton.2 (.scalar _)⟩)

theorem distinctKeys_aliceOverride : aliceOverride.DistinctKeys := by
  refine distinctKeys_namedEntries (by decide) (List.forall_mem_singleton.2 ?_)
  refine distinctKeys_namedEntries (by decide) (List.forall_mem_singleton.2 ?_)
  exact distinctKeys_namedEntries (by decide) (List.forall_mem_singleton.2
    (distinctKeys_scalars (by simp)))

theorem distinctKeys_networkOverride : networkOverride.DistinctKeys := by
  refine distinctKeys_namedEntries (by decide) (List.forall_mem_singleton.2 ?_)
  refine distinctKeys_namedEntries (by decide) (List.forall_mem_cons.2
    ⟨?_, List.forall_mem_singleton.2 ?_⟩)
  · exact distinctKeys_namedEntries (by decide) (List.forall_mem_singleton.2 (.scalar _))
  · exact distinctKeys_namedEntries (by decide) (List.forall_mem_singleton.2 (.scalar _))

theorem nestsFinitely_namedEntries {es : List (Text × Document)}
    (h : ∀ e ∈ es, e.2.NestsFinitely) : (Document.mapping (namedEntries es)).NestsFinitely := by
  refine .mapping fun e he => ?_
  obtain ⟨e', he', rfl⟩ := List.mem_map.1 he
  exact h e' he'

theorem nestsFinitely_closedBase : closedBase.NestsFinitely := by
  refine nestsFinitely_namedEntries (List.forall_mem_cons.2
    ⟨.mapping nofun, List.forall_mem_singleton.2 ?_⟩)
  exact nestsFinitely_namedEntries (List.forall_mem_cons.2
    ⟨.leaf rfl, List.forall_mem_singleton.2 (.leaf rfl)⟩)

theorem nestsFinitely_aliceOverride : aliceOverride.NestsFinitely := by
  refine nestsFinitely_namedEntries (List.forall_mem_singleton.2 ?_)
  refine nestsFinitely_namedEntries (List.forall_mem_singleton.2 ?_)
  exact nestsFinitely_namedEntries (List.forall_mem_singleton.2 (.leaf rfl))

theorem nestsFinitely_networkOverride : networkOverride.NestsFinitely := by
  refine nestsFinitely_namedEntries (List.forall_mem_singleton.2 ?_)
  refine nestsFinitely_namedEntries (List.forall_mem_cons.2
    ⟨?_, List.forall_mem_singleton.2 ?_⟩)
  · exact nestsFinitely_namedEntries (List.forall_mem_singleton.2 (.leaf rfl))
  · exact nestsFinitely_namedEntries (List.forall_mem_singleton.2 (.leaf rfl))

/-- Mappings under names are compatible if what they have under one name is. -/
theorem compatible_namedEntries {es es' : List (Text × Document)}
    (h : ∀ e ∈ es, ∀ e' ∈ es', e.1 = e'.1 → e.2.Compatible e'.2) :
    (Document.mapping (namedEntries es)).Compatible (.mapping (namedEntries es')) := by
  refine .mapping fun e he e' he' hk => ?_
  obtain ⟨f, hf, rfl⟩ := List.mem_map.1 he
  obtain ⟨f', hf', rfl⟩ := List.mem_map.1 he'
  exact h f hf f' hf' (by simpa [Key.same_text] using hk)

/-- The overrides meet in the limits and their users only. -/
theorem compatible_networkOverride : aliceOverride.Compatible networkOverride := by
  refine compatible_namedEntries (List.forall_mem_singleton.2 (List.forall_mem_singleton.2
    fun _ => ?_))
  refine compatible_namedEntries (List.forall_mem_singleton.2 (List.forall_mem_cons.2
    ⟨fun h => absurd h (by decide), List.forall_mem_singleton.2 fun _ => ?_⟩))
  exact compatible_namedEntries (List.forall_mem_singleton.2 (List.forall_mem_singleton.2
    fun h => absurd h (by decide)))

/-- Both orders compile, to the same blocks. -/
theorem compile_merge_comm_network : ∃ b,
    compile .null ((closedBase.merge aliceOverride).merge networkOverride) .null = .ok b ∧
      compile .null ((closedBase.merge networkOverride).merge aliceOverride) .null = .ok b := by
  obtain ⟨b, hb⟩ := Directive.exists_compile (.scalar .null)
    ((distinctKeys_closedBase.merge distinctKeys_aliceOverride).merge distinctKeys_networkOverride)
    (Validation.validate_eq_ok_iff.2 (by decide +kernel)) (.inl rfl)
  have hcomm := compile_merge_comm ⟨distinctKeys_closedBase, nestsFinitely_closedBase⟩
    ⟨distinctKeys_aliceOverride, nestsFinitely_aliceOverride⟩
    ⟨distinctKeys_networkOverride, nestsFinitely_networkOverride⟩ compatible_networkOverride
  exact ⟨b, hb, (hcomm.2 .null (.scalar .null) .null b).1 hb⟩

end Policy

end AccessPolicy
