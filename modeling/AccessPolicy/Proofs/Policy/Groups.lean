import AccessPolicy.Policy.Limits
import AccessPolicy.Proofs.Text.Sorted
import Mathlib.Data.Finset.Card

/-!
# Groups of principals

The groups of a list of grants are the grants again, put together by their operations
(`IsGrouping`) : every grant stands in one group, no group is empty, and no two have the same
operations. `Group.add` keeps this for one grant more (`IsGrouping.add`), so it holds of the
groups of all principals (`isGrouping_unorderedGroups`), and sorting does not change it
(`exists_groups`). There are as many groups as there are lists of operations
(`IsGrouping.length_eq`).
-/

namespace AccessPolicy

/-! ## Groupings -/

/-- Principals with their operations. -/
abbrev Grants := List (Principal × List Text)

/-- The principals of a group with its operations. -/
def Group.grants (g : Group) : Grants :=
  g.principals.map fun p => (p, g.operations)

/-- The groups hold these grants, those with the same operations together. -/
structure IsGrouping (gs : List Group) (es : Grants) : Prop where
  perm : (gs.flatMap Group.grants).Perm es
  nodup : (gs.map Group.operations).Nodup
  ne_nil : ∀ g ∈ gs, g.principals ≠ []

theorem Group.mem_operations_add {ops ops' : List Text} {p : Principal} :
    ∀ {gs : List Group}, ops' ∈ (Group.add ops p gs).map Group.operations ↔
      ops' = ops ∨ ops' ∈ gs.map Group.operations
  | [] => by simp [Group.add]
  | g :: gs => by
    rw [Group.add]
    split
    · next h =>
      subst h
      simp
    · simp only [List.map_cons, List.mem_cons, Group.mem_operations_add]
      constructor
      · rintro (h | h | h)
        · exact Or.inr (Or.inl h)
        · exact Or.inl h
        · exact Or.inr (Or.inr h)
      · rintro (h | h | h)
        · exact Or.inr (Or.inl h)
        · exact Or.inl h
        · exact Or.inr (Or.inr h)

theorem Group.perm_grants_add (ops : List Text) (p : Principal) : ∀ gs : List Group,
    ((Group.add ops p gs).flatMap Group.grants).Perm ((p, ops) :: gs.flatMap Group.grants)
  | [] => by simp [Group.add, Group.grants]
  | g :: gs => by
    rw [Group.add]
    split
    · next h =>
      have hgroup : Group.grants ⟨g.operations, g.principals ++ [p]⟩ = g.grants ++ [(p, ops)] := by
        simp [Group.grants, h]
      rw [List.flatMap_cons, hgroup, List.append_assoc, List.flatMap_cons]
      exact List.perm_middle
    · rw [List.flatMap_cons, List.flatMap_cons]
      exact ((Group.perm_grants_add ops p gs).append_left g.grants).trans List.perm_middle

theorem Group.nodup_operations_add {ops : List Text} {p : Principal} : ∀ {gs : List Group},
    (gs.map Group.operations).Nodup → ((Group.add ops p gs).map Group.operations).Nodup
  | [], _ => by simp [Group.add]
  | g :: gs, h => by
    rw [Group.add]
    split
    · simpa using h
    · next hg =>
      rw [List.map_cons, List.nodup_cons] at h ⊢
      refine ⟨fun hmem => ?_, Group.nodup_operations_add h.2⟩
      rcases Group.mem_operations_add.1 hmem with heq | hmem
      · exact hg heq
      · exact h.1 hmem

theorem Group.ne_nil_add {ops : List Text} {p : Principal} : ∀ {gs : List Group},
    (∀ g ∈ gs, g.principals ≠ []) → ∀ g ∈ Group.add ops p gs, g.principals ≠ []
  | [], _, g, hg => by
    obtain rfl : g = ⟨ops, [p]⟩ := by simpa [Group.add] using hg
    simp
  | g' :: gs, h, g, hg => by
    rw [Group.add] at hg
    split at hg
    · rcases List.mem_cons.1 hg with rfl | hg
      · simp
      · exact h g (List.mem_cons_of_mem _ hg)
    · rcases List.mem_cons.1 hg with rfl | hg
      · exact h g List.mem_cons_self
      · exact Group.ne_nil_add (fun g hg => h g (List.mem_cons_of_mem _ hg)) g hg

namespace IsGrouping

variable {gs gs' : List Group} {es es' : Grants}

theorem nil : IsGrouping [] [] :=
  ⟨List.Perm.refl _, List.nodup_nil, by simp⟩

/-- One grant more. -/
theorem add (h : IsGrouping gs es) (e : Principal × List Text) :
    IsGrouping (Group.add e.2 e.1 gs) (e :: es) :=
  ⟨(Group.perm_grants_add e.2 e.1 gs).trans (h.perm.cons e), Group.nodup_operations_add h.nodup,
    Group.ne_nil_add h.ne_nil⟩

theorem foldl_add : ∀ (es' : Grants) {gs : List Group} {es : Grants}, IsGrouping gs es →
    IsGrouping (es'.foldl (fun gs e => Group.add e.2 e.1 gs) gs) (es' ++ es)
  | [], _, _, h => h
  | e :: es', gs, es, h => by
    have hrest := foldl_add es' (h.add e)
    exact ⟨hrest.perm.trans List.perm_middle, hrest.nodup, hrest.ne_nil⟩

theorem of_perm (h : IsGrouping gs es) (hgs : gs'.Perm gs) (hes : es.Perm es') :
    IsGrouping gs' es' :=
  ⟨(hgs.flatMap_right _).trans (h.perm.trans hes), (hgs.map _).nodup_iff.2 h.nodup,
    fun g hg => h.ne_nil g (hgs.subset hg)⟩

theorem mem_iff (h : IsGrouping gs es) {p : Principal} {ops : List Text} :
    (p, ops) ∈ es ↔ ∃ g ∈ gs, g.operations = ops ∧ p ∈ g.principals := by
  rw [← h.perm.mem_iff, List.mem_flatMap]
  constructor
  · rintro ⟨g, hg, hmem⟩
    obtain ⟨p', hp', heq⟩ := List.mem_map.1 hmem
    cases heq
    exact ⟨g, hg, rfl, hp'⟩
  · rintro ⟨g, hg, rfl, hp⟩
    exact ⟨g, hg, List.mem_map_of_mem hp⟩

theorem mem_operations_iff (h : IsGrouping gs es) {ops : List Text} :
    ops ∈ gs.map Group.operations ↔ ops ∈ es.map (·.2) := by
  rw [List.mem_map, List.mem_map]
  constructor
  · rintro ⟨g, hg, rfl⟩
    obtain ⟨p, hp⟩ := List.exists_mem_of_ne_nil _ (h.ne_nil g hg)
    exact ⟨(p, g.operations), h.mem_iff.2 ⟨g, hg, rfl, hp⟩, rfl⟩
  · rintro ⟨⟨p, ops⟩, he, rfl⟩
    obtain ⟨g, hg, hops, -⟩ := h.mem_iff.1 he
    exact ⟨g, hg, hops⟩

/-- One group for each list of operations. -/
theorem length_eq (h : IsGrouping gs es) : gs.length = (es.map (·.2)).toFinset.card := by
  rw [← List.length_map (f := Group.operations), ← List.toFinset_card_of_nodup h.nodup]
  congr 1
  ext ops
  rw [List.mem_toFinset, List.mem_toFinset, h.mem_operations_iff]

theorem eq_nil_iff (h : IsGrouping gs es) : gs = [] ↔ es = [] := by
  rw [← List.map_eq_nil_iff (f := Group.operations), List.eq_nil_iff_forall_not_mem,
    ← List.map_eq_nil_iff (f := fun e : Principal × List Text => e.2),
    List.eq_nil_iff_forall_not_mem]
  simp only [h.mem_operations_iff]

/-- The principals of all groups. -/
theorem perm_principals (h : IsGrouping gs es) :
    (gs.flatMap Group.principals).Perm (es.map (·.1)) := by
  have hmap : (gs.flatMap Group.grants).map (·.1) = gs.flatMap Group.principals := by
    simp [List.map_flatMap, Group.grants, Function.comp_def]
  rw [← hmap]
  exact h.perm.map _

end IsGrouping

/-! ## The groups of limits -/

namespace Limits

/-- The grants of the limits, class by class. -/
def grants (l : Limits) : Grants :=
  PrincipalClass.all.flatMap fun c => (l.principals c).map fun e => (⟨c, e.1⟩, e.2)

theorem ordered_perm (l : Limits) : l.ordered.Perm l.grants := by
  refine List.Perm.flatMap_left _ fun c _ => ?_
  exact (Sorted.sort_perm _ (l.principals c)).map _

theorem isGrouping_unorderedGroups (l : Limits) : IsGrouping l.unorderedGroups l.grants := by
  have h := IsGrouping.nil.foldl_add l.ordered
  exact h.of_perm (List.Perm.refl _) (by simpa using l.ordered_perm)

theorem isEmpty_iff (l : Limits) : l.isEmpty = true ↔ l.grants = [] := by
  simp [isEmpty, grants, PrincipalClass.all]

end Limits

theorem Operations.exists_places : ∀ {ops : List Text}, (∀ op ∈ ops, op ∈ operations) →
    ∃ places, Operations.places? ops = some places
  | [], _ => ⟨[], rfl⟩
  | op :: ops, h => by
    obtain ⟨is, his⟩ := Operations.exists_places fun o ho => h o (List.mem_cons_of_mem _ ho)
    have hop : (operations.findIdx? (· == op)).isSome := by
      rw [List.findIdx?_isSome, List.any_eq_true]
      exact ⟨op, h op List.mem_cons_self, by simp⟩
    obtain ⟨i, hi⟩ := Option.isSome_iff_exists.1 hop
    exact ⟨i :: is, by simp [Operations.places?, hi, his]⟩

/-- A walk along a list whose steps all succeed. -/
theorem exists_mapM_of_forall {ε α β : Type} {f : α → Except ε β} {back : β → α} :
    ∀ {l : List α}, (∀ a ∈ l, ∃ b, f a = .ok b ∧ back b = a) →
      ∃ bs, l.mapM f = .ok bs ∧ bs.map back = l
  | [], _ => ⟨[], rfl, rfl⟩
  | a :: l, h => by
    obtain ⟨b, hb, hback⟩ := h a List.mem_cons_self
    obtain ⟨bs, hbs, hmap⟩ := exists_mapM_of_forall fun a ha => h a (List.mem_cons_of_mem _ ha)
    refine ⟨b :: bs, ?_, by rw [List.map_cons, hback, hmap]⟩
    rw [List.mapM_cons, hb, hbs]
    rfl

/-- A group behind the places of its operations. -/
def Group.placed (g : Group) : Except Fault (List Nat × Group) :=
  match Operations.places? g.operations with
  | some places => pure (places, g)
  | none => throw .noOperation

theorem Group.exists_placed {g : Group}
    (h : ∀ op ∈ g.operations, op ∈ AccessPolicy.operations) :
    ∃ places, g.placed = .ok (places, g) := by
  obtain ⟨places, hplaces⟩ := Operations.exists_places h
  exact ⟨places, by rw [Group.placed, hplaces]; rfl⟩

theorem Limits.groups_eq (l : Limits) : l.groups = (do
    let placed ← l.unorderedGroups.mapM Group.placed
    return (Sorted.sort (fun a b => Operations.placesLe a.1 b.1) placed).map (·.2)) :=
  rfl

/-- Limits whose operations are all known have groups. -/
theorem Limits.exists_groups {l : Limits}
    (h : ∀ e ∈ l.grants, ∀ op ∈ e.2, op ∈ operations) :
    ∃ gs, l.groups = .ok gs ∧ IsGrouping gs l.grants := by
  have hgrouping := l.isGrouping_unorderedGroups
  have placed : ∀ g ∈ l.unorderedGroups, ∃ b, g.placed = .ok b ∧ b.2 = g := by
    intro g hg
    obtain ⟨e, he, hops⟩ := List.mem_map.1 (hgrouping.mem_operations_iff.1
      (List.mem_map_of_mem hg))
    obtain ⟨places, hplaces⟩ := Group.exists_placed (hops ▸ h e he)
    exact ⟨(places, g), hplaces, rfl⟩
  obtain ⟨bs, hbs, hmap⟩ := exists_mapM_of_forall placed
  refine ⟨(Sorted.sort (fun a b => Operations.placesLe a.1 b.1) bs).map (·.2), ?_, ?_⟩
  · rw [l.groups_eq, hbs]
    rfl
  · refine hgrouping.of_perm ?_ (List.Perm.refl _)
    exact ((Sorted.sort_perm _ bs).map _).trans (hmap ▸ List.Perm.refl _)

end AccessPolicy
