import AccessPolicy.Proofs.Policy.Groups

/-!
# Groups as a sorted partition

What the groups of any limits are, also of limits whose lists of operations are empty, out of
order or hold a name twice. Limits have no groups if and only if some principal is granted what
is no operation; otherwise the groups are a partition of the principals by their lists of
operations, in ascending order (`Limits.groups_partition`).

Principals come to the groups ordered by class and then by name (`Limits.pairwise_ordered`), and
a group takes them as they come (`Limits.sublist_principals`), so each group is ordered like
that. The places of operations in the vocabulary tell lists of operations apart
(`Operations.places_inj`), so groups that are sorted by them are sorted strictly.
-/

namespace AccessPolicy

/-! ## The order of operation lists -/

namespace Operations

/-- The places of operations in the vocabulary. -/
def places (ops : List Text) : List Nat :=
  ops.map fun op => operations.idxOf op

theorem findIdx?_eq (op : Text) : operations.findIdx? (· == op) =
    if op ∈ operations then some (operations.idxOf op) else none := by
  split
  · next h =>
    rw [List.findIdx?_eq_some_iff_findIdx_eq]
    exact ⟨List.idxOf_lt_length_of_mem h, rfl⟩
  · next h =>
    rw [List.findIdx?_eq_none_iff]
    intro op' hop'
    exact beq_false_of_ne fun heq => h (heq ▸ hop')

/-- Operations have places if and only if all of them are known. -/
theorem places?_eq_some_iff : ∀ {ops : List Text} {is : List Nat},
    places? ops = some is ↔ (∀ op ∈ ops, op ∈ operations) ∧ is = places ops
  | [], is => by simp [places?, places, eq_comm]
  | op :: ops, is => by
    rw [places?, findIdx?_eq]
    by_cases hop : op ∈ operations
    · rw [if_pos hop]
      cases hops : places? ops with
      | none =>
        have hunknown : ¬ ∀ op ∈ ops, op ∈ operations := fun h => by
          have hsome := places?_eq_some_iff.2 ⟨h, rfl⟩
          rw [hops] at hsome
          cases hsome
        simp [hop, hunknown]
      | some js =>
        obtain ⟨hknown, rfl⟩ := places?_eq_some_iff.1 hops
        simp only [List.forall_mem_cons, hop, true_and, Option.some.injEq, places, List.map_cons]
        exact ⟨fun h => ⟨hknown, h.symm⟩, fun h => h.2.symm⟩
    · rw [if_neg hop]
      simp [hop]

/-- Different lists of known operations have different places. -/
theorem places_inj : ∀ {ops ops' : List Text}, (∀ op ∈ ops, op ∈ operations) →
    places ops = places ops' → ops = ops'
  | [], [], _, _ => rfl
  | op :: ops, op' :: ops', h, heq => by
    obtain ⟨hop, hops⟩ := List.cons.inj heq
    rw [(List.idxOf_inj (h op List.mem_cons_self)).1 hop,
      places_inj (fun o ho => h o (List.mem_cons_of_mem _ ho)) hops]

theorem placesLe_iff : ∀ {is js : List Nat}, placesLe is js = true ↔ ¬ js < is
  | [], js => by simp [placesLe]
  | i :: is, [] => by simp [placesLe]
  | i :: is, j :: js => by
    simp only [placesLe, Bool.or_eq_true, decide_eq_true_eq, Bool.and_eq_true, beq_iff_eq,
      placesLe_iff, List.cons_lt_cons_iff]
    constructor
    · rintro (h | ⟨rfl, h⟩) (h' | ⟨h', hlt⟩)
      · omega
      · omega
      · omega
      · exact h hlt
    · intro h
      rcases Nat.lt_trichotomy i j with hij | hij | hij
      · exact .inl hij
      · exact .inr ⟨hij, fun hlt => h (.inr ⟨hij.symm, hlt⟩)⟩
      · exact absurd (.inl hij) h

theorem placesLe_total (is js : List Nat) : placesLe is js = true ∨ placesLe js is = true := by
  rw [placesLe_iff, placesLe_iff]
  by_cases h : js < is
  · exact .inr (List.lt_asymm h)
  · exact .inl h

theorem placesLe_trans (is js ks : List Nat) (h : placesLe is js = true)
    (h' : placesLe js ks = true) : placesLe is ks = true := by
  rw [placesLe_iff, List.not_lt] at h h' ⊢
  exact List.le_trans h h'

/-- Of two different lists of places in order, the first is the smaller one. -/
theorem lt_of_placesLe {is js : List Nat} (h : placesLe is js = true) (hne : is ≠ js) :
    is < js := by
  rw [placesLe_iff, List.not_lt] at h
  by_contra hlt
  exact hne (List.le_antisymm h (List.not_lt.1 hlt))

end Operations

/-- Of two different texts in order, the first is the smaller one. -/
theorem Text.lt_of_le_of_ne : ∀ {s t : Text}, le s t = true → s ≠ t →
    s.map CodePoint.toNat < t.map CodePoint.toNat
  | [], [], _, hne => absurd rfl hne
  | [], b :: t, _, _ => by simp
  | a :: s, [], h, _ => by simp [le] at h
  | a :: s, b :: t, h, hne => by
    rw [List.map_cons, List.map_cons, List.cons_lt_cons_iff]
    rcases le_cons_iff.1 h with hab | ⟨hab, hst⟩
    · exact .inl hab
    · refine .inr ⟨hab, lt_of_le_of_ne hst fun heq => hne ?_⟩
      rw [CodePoint.toNat_injective hab, heq]

/-! ## The order of principals -/

/-- One principal comes before another : by its class, and within a class by its name. -/
def Principal.Before (p q : Principal) : Prop :=
  PrincipalClass.all.idxOf p.kind < PrincipalClass.all.idxOf q.kind ∨
    p.kind = q.kind ∧ p.name.map CodePoint.toNat < q.name.map CodePoint.toNat

theorem Principal.Before.ne {p q : Principal} (h : p.Before q) : p ≠ q := by
  rintro rfl
  rcases h with h | ⟨-, h⟩
  · exact Nat.lt_irrefl _ h
  · exact List.lt_irrefl _ h

namespace Limits

variable {l : Limits}

/-- No class names a principal twice. -/
def DistinctNames (l : Limits) : Prop :=
  ∀ c, ((l.principals c).map (·.1)).Nodup

instance (l : Limits) : Decidable l.DistinctNames :=
  decidable_of_iff (∀ c ∈ PrincipalClass.all, ((l.principals c).map (·.1)).Nodup)
    ⟨fun h c => h c (by cases c <;> decide), fun h c _ => h c⟩

/-- The principals come ordered by class and then by name. -/
theorem pairwise_ordered (h : l.DistinctNames) :
    (l.ordered.map (·.1)).Pairwise Principal.Before := by
  rw [List.pairwise_map, ordered, List.pairwise_flatMap]
  constructor
  · intro c _
    rw [List.pairwise_map]
    have hsorted := Sorted.pairwise_sort (fun a b => Text.le_total a.1 b.1)
      (fun a b c => Text.le_trans a.1 b.1 c.1) (l.principals c)
    have hnames : (Sorted.sort (fun a b => Text.le a.1 b.1) (l.principals c)).Pairwise
        fun a b => a.1 ≠ b.1 :=
      List.pairwise_map.1 (((Sorted.sort_perm _ _).map _).nodup_iff.2 (h c))
    exact (hsorted.and hnames).imp fun hab => .inr ⟨rfl, Text.lt_of_le_of_ne hab.1 hab.2⟩
  · have hclasses : PrincipalClass.all.Pairwise fun c c' =>
        PrincipalClass.all.idxOf c < PrincipalClass.all.idxOf c' := by
      decide
    refine hclasses.imp fun hlt e he e' he' => ?_
    obtain ⟨_, _, rfl⟩ := List.mem_map.1 he
    obtain ⟨_, _, rfl⟩ := List.mem_map.1 he'
    exact .inl hlt

end Limits

/-! ## What a group takes -/

/-- Every group's principals stand in this list, in its order. -/
def Group.Within (ps : List Principal) (gs : List Group) : Prop :=
  ∀ g ∈ gs, g.principals.Sublist ps

theorem Group.Within.add {ps : List Principal} (ops : List Text) (p : Principal) :
    ∀ {gs : List Group}, Group.Within ps gs → Group.Within (ps ++ [p]) (Group.add ops p gs)
  | [], _ => by simp [Group.Within, Group.add]
  | g :: gs, h => by
    obtain ⟨hg, hgs⟩ := List.forall_mem_cons.1 h
    have hmore : ∀ {qs : List Principal}, qs.Sublist ps → qs.Sublist (ps ++ [p]) :=
      fun hqs => hqs.trans (List.sublist_append_left ps [p])
    rw [Group.add]
    split
    · exact List.forall_mem_cons.2 ⟨hg.append (List.Sublist.refl _),
        fun g' hg' => hmore (hgs g' hg')⟩
    · exact List.forall_mem_cons.2 ⟨hmore hg, Group.Within.add ops p hgs⟩

theorem Group.Within.foldl_add : ∀ (es : Grants) {ps : List Principal} {gs : List Group},
    Group.Within ps gs → Group.Within (ps ++ es.map (·.1))
      (es.foldl (fun gs e => Group.add e.2 e.1 gs) gs)
  | [], _, _, h => by simpa using h
  | e :: es, ps, gs, h => by
    rw [List.map_cons, List.append_cons, List.foldl_cons]
    exact Group.Within.foldl_add es (h.add e.2 e.1)

/-- A group holds its principals in the order in which they come. -/
theorem Limits.sublist_principals {l : Limits} {g : Group} (hg : g ∈ l.unorderedGroups) :
    g.principals.Sublist (l.ordered.map (·.1)) := by
  have hnone : Group.Within [] [] := by simp [Group.Within]
  exact hnone.foldl_add l.ordered g hg

/-! ## The groups of limits -/

/-- The groups are these grants in ascending order : each principal stands in one group once,
that of its operations, the groups are ordered by the places of their operations, and the
principals of each by class and name. -/
structure IsSortedPartition (gs : List Group) (es : Grants) : Prop extends IsGrouping gs es where
  once : (gs.flatMap Group.principals).Nodup
  increasing : gs.Pairwise fun g g' =>
    Operations.places g.operations < Operations.places g'.operations
  ordered : ∀ g ∈ gs, g.principals.Pairwise Principal.Before

/-- Sorting by what a function gives is sorting what it gives. -/
theorem Sorted.sort_map {α β : Type} (le : β → β → Bool) (f : α → β) : ∀ l : List α,
    sort le (l.map f) = (sort (fun a b => le (f a) (f b)) l).map f
  | [] => rfl
  | a :: as => by
    have hinsert : ∀ bs : List α,
        insert le (f a) (bs.map f) = (insert (fun a b => le (f a) (f b)) a bs).map f := by
      intro bs
      induction bs with
      | nil => rfl
      | cons b bs ih =>
        rw [List.map_cons, insert, insert]
        split
        · rfl
        · rw [ih, List.map_cons]
    rw [List.map_cons, sort, sort_map le f as, hinsert, sort]

/-- The order of groups by the places of their operations. -/
def Group.placesLe (g g' : Group) : Bool :=
  Operations.placesLe (Operations.places g.operations) (Operations.places g'.operations)

theorem Group.placed_of_known {g : Group} (h : ∀ op ∈ g.operations, op ∈ AccessPolicy.operations) :
    g.placed = .ok (Operations.places g.operations, g) := by
  rw [placed, Operations.places?_eq_some_iff.2 ⟨h, rfl⟩]
  rfl

theorem Group.placed_of_unknown {g : Group} {op : Text} (hop : op ∈ g.operations)
    (h : op ∉ AccessPolicy.operations) : g.placed = .error .noOperation := by
  rw [placed]
  cases hplaces : Operations.places? g.operations with
  | none => rfl
  | some is => exact absurd ((Operations.places?_eq_some_iff.1 hplaces).1 op hop) h

/-- Groups of known operations have places, one group of an unknown one has none, and then no
groups are placed. -/
theorem Group.mapM_placed : ∀ gs : List Group, gs.mapM Group.placed =
    if ∀ g ∈ gs, ∀ op ∈ g.operations, op ∈ AccessPolicy.operations then
      .ok (gs.map fun g => (Operations.places g.operations, g))
    else .error .noOperation
  | [] => by simp; rfl
  | g :: gs => by
    rw [List.mapM_cons, mapM_placed gs]
    by_cases hg : ∀ op ∈ g.operations, op ∈ AccessPolicy.operations
    · rw [placed_of_known hg]
      by_cases hgs : ∀ g ∈ gs, ∀ op ∈ g.operations, op ∈ AccessPolicy.operations
      · rw [if_pos hgs, if_pos (List.forall_mem_cons.2 ⟨hg, hgs⟩)]
        rfl
      · rw [if_neg hgs, if_neg fun h => hgs (List.forall_mem_cons.1 h).2]
        rfl
    · rw [if_neg fun h => hg (List.forall_mem_cons.1 h).1]
      obtain ⟨op, h⟩ := Classical.not_forall.1 hg
      obtain ⟨hop, hunknown⟩ := Classical.not_imp.1 h
      rw [placed_of_unknown hop hunknown]
      rfl

namespace Limits

variable {l : Limits}

theorem forall_unorderedGroups_iff (p : List Text → Prop) :
    (∀ g ∈ l.unorderedGroups, p g.operations) ↔ ∀ e ∈ l.grants, p e.2 := by
  rw [← List.forall_mem_map (f := Group.operations), ← List.forall_mem_map (f := Prod.snd)]
  simp only [l.isGrouping_unorderedGroups.mem_operations_iff]

/-- The groups are sorted by the places of their operations, if those are known. -/
theorem groups_eq_ite (l : Limits) : l.groups =
    if ∀ e ∈ l.grants, ∀ op ∈ e.2, op ∈ operations then
      .ok (Sorted.sort Group.placesLe l.unorderedGroups)
    else .error .noOperation := by
  rw [groups_eq, Group.mapM_placed]
  simp only [forall_unorderedGroups_iff fun ops => ∀ op ∈ ops, op ∈ operations]
  split
  · refine congrArg Except.ok ?_
    rw [Sorted.sort_map, List.map_map]
    exact List.map_id _
  · rfl

/-- The groups in the order of their operations are a sorted partition of the principals. -/
theorem isSortedPartition_sort (hnames : l.DistinctNames)
    (hknown : ∀ e ∈ l.grants, ∀ op ∈ e.2, op ∈ operations) :
    IsSortedPartition (Sorted.sort Group.placesLe l.unorderedGroups) l.grants := by
  have hperm := Sorted.sort_perm Group.placesLe l.unorderedGroups
  have hgrouping := l.isGrouping_unorderedGroups.of_perm hperm (List.Perm.refl _)
  have hordered := pairwise_ordered hnames
  refine { hgrouping with once := ?_, increasing := ?_, ordered := ?_ }
  · rw [(hgrouping.perm_principals.trans (l.ordered_perm.symm.map _)).nodup_iff]
    exact hordered.imp Principal.Before.ne
  · have hsorted := @Sorted.pairwise_sort _ Group.placesLe
      (fun _ _ => Operations.placesLe_total _ _)
      (fun _ _ _ => Operations.placesLe_trans _ _ _) l.unorderedGroups
    have hdiffer := List.pairwise_map.1 hgrouping.nodup
    refine (hsorted.and hdiffer).imp_of_mem fun {g g'} hg _ ⟨hle, hne⟩ => ?_
    have hops := (forall_unorderedGroups_iff fun ops => ∀ op ∈ ops, op ∈ operations).2 hknown g
      (hperm.subset hg)
    exact Operations.lt_of_placesLe hle fun heq => hne (Operations.places_inj hops heq)
  · exact fun g hg => hordered.sublist (sublist_principals (hperm.subset hg))

/-- The groups of any limits are a sorted partition of their principals; there are none if and
only if some principal is granted what is no operation. -/
theorem groups_partition (hnames : l.DistinctNames) :
    (l.groups = .error .noOperation ↔ ∃ e ∈ l.grants, ∃ op ∈ e.2, op ∉ operations) ∧
      ((∀ e ∈ l.grants, ∀ op ∈ e.2, op ∈ operations) →
        ∃ gs, l.groups = .ok gs ∧ IsSortedPartition gs l.grants) := by
  rw [groups_eq_ite]
  constructor
  · split
    · next hknown =>
      refine iff_of_false (fun h => by cases h) ?_
      rintro ⟨e, he, op, hop, hunknown⟩
      exact hunknown (hknown e he op hop)
    · next hunknown =>
      refine iff_of_true rfl ?_
      simpa only [not_forall, exists_prop] using hunknown
  · intro hknown
    exact ⟨_, if_pos hknown, isSortedPartition_sort hnames hknown⟩

/-- Limits as nobody writes them in a document : one list is empty, one out of order, and one
holds an operation twice. -/
def raw : Limits where
  hosts := [("2.0.0.1", []), ("10.0.0.1", ["POST", "GET"])]
  users := [("bob", ["GET", "GET"]), ("alice", ["POST", "GET"]), ("valid-user", ["GET"])]
  ldapGroups := [("staff", [])]

theorem groups_partition_raw :
    (raw.groups = .error .noOperation ↔ ∃ e ∈ raw.grants, ∃ op ∈ e.2, op ∉ operations) ∧
      ∃ gs, raw.groups = .ok gs ∧ IsSortedPartition gs raw.grants :=
  have h := groups_partition (l := raw) (by decide +kernel)
  ⟨h.1, h.2 (by decide +kernel)⟩

end Limits

end AccessPolicy
