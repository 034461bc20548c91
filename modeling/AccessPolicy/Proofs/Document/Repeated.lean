import AccessPolicy.Proofs.Document.Overlay

/-!
# Laying an override over twice

An override that was laid over a base finds each of its entries there, so laying it over once
more changes nothing, not even the order or the spelling of keys (`Document.merge_merge_self`).
A value that it put there whole now meets itself, and merging a document onto itself changes
nothing either (`Document.merge_self`).

Both need keys that find their own entries. A not-a-number is no key's equal, not even its own
(`Key.same_self`), and the entry of such a key would be added again, so the override has none of
them (`Document.NoNaNKeys`).
-/

namespace AccessPolicy

/-! ## Keys that find themselves -/

/-- Every scalar is the same as itself, except for a not-a-number. -/
theorem Scalar.same_self (a : Scalar) : a.same a = !a.isNaN := by
  simp [Scalar.same]

mutual

/-- The key is a not-a-number, or a part of it is. -/
def Key.hasNaN : Key → Bool
  | .scalar s => s.isNaN
  | .tuple ks => Key.anyNaN ks

def Key.anyNaN : List Key → Bool
  | [] => false
  | k :: ks => k.hasNaN || Key.anyNaN ks

end

mutual

/-- A key names its own entry, except for a not-a-number. -/
theorem Key.same_self : ∀ k : Key, k.same k = !k.hasNaN
  | .scalar s => by rw [Key.same, Key.hasNaN, Scalar.same_self]
  | .tuple ks => by rw [Key.same, Key.hasNaN, Key.sameAll_self ks]

theorem Key.sameAll_self : ∀ ks : List Key, Key.sameAll ks ks = !Key.anyNaN ks
  | [] => rfl
  | k :: ks => by
    rw [Key.sameAll, Key.anyNaN, Key.same_self k, Key.sameAll_self ks, Bool.not_or]

end

/-- No mapping that a path leads to has a key with a not-a-number. -/
def Document.NoNaNKeys (d : Document) : Prop :=
  ∀ p v, d.at? p = some v → ∀ e ∈ v.entries, e.1.hasNaN = false

namespace Entries

variable {es os : Entries}

/-- A key that names no entry but its own finds it. -/
theorem lookup_of_mem : ∀ {es : Entries}, Key.Apart es.keys → ∀ e ∈ es, e.1.hasNaN = false →
    lookup e.1 es = some e.2
  | f :: es, apart, e, he, hnan => by
    rw [lookup]
    rcases List.mem_cons.1 he with rfl | he
    · rw [Key.same_self, hnan]
      rfl
    · have hne : f.1.same e.1 = false :=
        List.rel_of_pairwise_cons apart (List.mem_map_of_mem he)
      rw [Key.same_comm, hne]
      exact lookup_of_mem (List.Pairwise.of_cons apart) e he hnan

/-- Nothing is added to entries that have all the keys. -/
theorem added_eq_nil {bs : Entries} (h : ∀ e ∈ os, lookup e.1 bs ≠ none) : added bs os = [] :=
  List.filter_eq_nil_iff.2 fun e he => by
    obtain ⟨v, hv⟩ := Option.ne_none_iff_exists'.1 (h e he)
    simp [has, hv]

/-- Entries that find the values laid over them where they are stay as they are. -/
theorem overlaid_eq_self (h : ∀ e ∈ es, laidOver e.2 (lookup e.1 os) = e.2) :
    overlaid os es = es := by
  rw [overlaid_eq_map]
  refine (List.map_congr_left fun e he => ?_).trans (List.map_id es)
  rw [h e he, id]

end Entries

namespace Document

variable {b d o u v : Document} {k : Key} {es os : Entries}

namespace NoNaNKeys

theorem entries? (h : d.NoNaNKeys) (hes : d.entries? = some es) :
    ∀ e ∈ es, e.1.hasNaN = false := by
  have hroot := h [] d (at?_nil d)
  rwa [Document.entries, hes] at hroot

theorem of_lookup (h : d.NoNaNKeys) (hes : d.entries? = some es)
    (hv : Entries.lookup k es = some v) : v.NoNaNKeys := fun p w hw =>
  h (k :: p) w ((at?_cons_of_lookup hes hv).trans hw)

theorem leaf (h : d.isMapping = false) : d.NoNaNKeys := by
  intro p v hv e he
  cases p with
  | nil =>
    obtain rfl : d = v := by simpa using hv
    have hnone : d.entries? = none := by simpa [isMapping] using h
    simp [Document.entries, hnone] at he
  | cons k p =>
    rw [at?_cons_of_not_isMapping h] at hv
    cases hv

theorem mapping (hkeys : ∀ e ∈ es, e.1.hasNaN = false) (h : ∀ e ∈ es, e.2.NoNaNKeys) :
    (mapping es).NoNaNKeys := by
  intro p v hv
  cases p with
  | nil =>
    obtain rfl : Document.mapping es = v := by simpa using hv
    exact hkeys
  | cons k p =>
    rw [at?_cons (o := .mapping es) rfl, Option.bind_eq_some_iff] at hv
    obtain ⟨u, hu, hv⟩ := hv
    obtain ⟨e, he, -, rfl⟩ := Entries.mem_of_lookup hu
    exact h e he p v hv

end NoNaNKeys

/-- Merging a document onto itself changes nothing. -/
theorem merge_self (hd : d.DistinctKeys) (hk : d.NoNaNKeys) : d.merge d = d := by
  induction hd with
  | @mapping es apart _ ih =>
    have hfound : ∀ e ∈ es, Entries.lookup e.1 es = some e.2 := fun e he =>
      Entries.lookup_of_mem apart e he (hk.entries? rfl e he)
    have hvalues : ∀ e ∈ es, Entries.laidOver e.2 (Entries.lookup e.1 es) = e.2 := by
      intro e he
      rw [hfound e he, Entries.laidOver]
      split
      · exact ih e he (hk.of_lookup rfl (hfound e he))
      · rfl
    rw [merge_mapping rfl, Entries.overlaid_eq_self hvalues,
      Entries.added_eq_nil fun e he => by simp [hfound e he], List.append_nil]
  | scalar s =>
    cases s with
    | null => exact merge_null _
    | _ => exact merge_of_replaced (by simp) (by rintro ⟨⟨bs, ⟨⟩⟩, -⟩)
  | sequence | tuple | set | cyclic =>
    exact merge_of_replaced (by simp) (by rintro ⟨⟨bs, ⟨⟩⟩, -⟩)

/-- Null apart, laying a value over another is merging. -/
theorem laidOver_eq_merge (hv : v ≠ .null) : Entries.laidOver b (some v) = b.merge v := by
  by_cases hboth : b.isMapping = true ∧ v.isMapping = true
  · exact laidOver_of_isMapping hboth.1 hboth.2
  · rw [laidOver_of_replaced hboth, merge_of_replaced hv]
    rintro ⟨⟨bs, rfl⟩, hmapping⟩
    exact hboth ⟨rfl, hmapping⟩

theorem laidOver_null (b : Document) : Entries.laidOver b (some .null) = .null :=
  laidOver_of_replaced fun h => nomatch h.2

theorem laidOver_self (hd : d.DistinctKeys) (hk : d.NoNaNKeys) :
    Entries.laidOver d (some d) = d := by
  rw [Entries.laidOver, merge_self hd hk, ite_self]

/-- What was laid over a value changes nothing again, if merging it changes nothing again. -/
theorem laidOver_laidOver {v? : Option Document}
    (ih : ∀ v, v? = some v → (b.merge v).merge v = b.merge v) :
    Entries.laidOver (Entries.laidOver b v?) v? = Entries.laidOver b v? := by
  cases v? with
  | none => rfl
  | some v =>
    by_cases hv : v = .null
    · rw [hv, laidOver_null, laidOver_null]
    · rw [laidOver_eq_merge hv, laidOver_eq_merge hv, ih v rfl]

theorem IsBase.of_lookup (h : o.IsBase) (hos : o.entries? = some os)
    (hv : Entries.lookup k os = some v) : v.IsBase := by
  obtain ⟨e, he, -, rfl⟩ := Entries.mem_of_lookup hv
  refine ⟨(h.distinctKeys.entries? hos).2 e he, h.nestsFinitely.at? (p := [k]) ?_⟩
  exact at?_cons_of_lookup hos hv

/-- Where the override replaces the base, it meets itself the second time. -/
theorem merge_merge_of_replaced (ho : o.DistinctKeys) (hk : o.NoNaNKeys)
    (h : ¬ ((∃ bs, b = .mapping bs) ∧ o.isMapping = true)) :
    (b.merge o).merge o = b.merge o := by
  by_cases hnull : o = .null
  · rw [hnull, merge_null, merge_null]
  · rw [merge_of_replaced hnull h, merge_self ho hk]

/-- Laid over once more, an override changes nothing. The second time it meets its own values, so
it has to be a base as well. -/
theorem merge_merge_self (hb : b.NestsFinitely) (ho : o.IsBase) (hk : o.NoNaNKeys) :
    (b.merge o).merge o = b.merge o := by
  induction hb generalizing o with
  | leaf hb =>
    refine merge_merge_of_replaced ho.distinctKeys hk ?_
    rintro ⟨⟨bs, rfl⟩, -⟩
    cases hb
  | @mapping bs _ ih =>
    cases hos : o.entries? with
    | none =>
      exact merge_merge_of_replaced ho.distinctKeys hk fun h => by simp [isMapping, hos] at h
    | some os =>
      have hfound : ∀ e ∈ os, Entries.lookup e.1 os = some e.2 := fun e he =>
        Entries.lookup_of_mem (ho.distinctKeys.entries? hos).1 e he (hk.entries? hos e he)
      -- an entry of the base was laid over already, an entry of the override meets itself
      have hvalues : ∀ e ∈ Entries.overlaid os bs ++ Entries.added bs os,
          Entries.laidOver e.2 (Entries.lookup e.1 os) = e.2 := by
        intro e he
        rcases List.mem_append.1 he with he | he
        · rw [Entries.overlaid_eq_map] at he
          obtain ⟨e', he', rfl⟩ := List.mem_map.1 he
          exact laidOver_laidOver fun v hv =>
            ih e' he' (ho.of_lookup hos hv) (hk.of_lookup hos hv)
        · have hv := hfound e (List.mem_filter.1 he).1
          rw [hv]
          exact laidOver_self (ho.of_lookup hos hv).distinctKeys (hk.of_lookup hos hv)
      have hadded : Entries.added (Entries.overlaid os bs ++ Entries.added bs os) os = [] := by
        refine Entries.added_eq_nil fun e he => ?_
        rw [Entries.lookup_merged, hfound e he]
        cases Entries.lookup e.1 bs <;> exact Option.some_ne_none _
      rw [merge_mapping hos, merge_mapping hos, Entries.overlaid_eq_self hvalues, hadded,
        List.append_nil]

theorem isBase_truthOverride : truthOverride.IsBase := by
  refine ⟨?_, .mapping (List.forall_mem_cons.2 ⟨.leaf rfl, List.forall_mem_cons.2
    ⟨.mapping (List.forall_mem_cons.2 ⟨.mapping nofun, List.forall_mem_singleton.2 (.leaf rfl)⟩),
      List.forall_mem_cons.2 ⟨.mapping (List.forall_mem_singleton.2 (.leaf rfl)),
        List.forall_mem_singleton.2 (.leaf rfl)⟩⟩⟩)⟩
  refine .mapping (by decide) (List.forall_mem_cons.2 ⟨.scalar .null, List.forall_mem_cons.2
    ⟨?_, List.forall_mem_cons.2 ⟨?_, List.forall_mem_singleton.2 (.sequence (by simp))⟩⟩⟩)
  · exact .mapping (by decide) (List.forall_mem_cons.2 ⟨.mapping (by decide) (by simp),
      List.forall_mem_singleton.2 (.sequence (by simp))⟩)
  · exact .mapping (by decide) (List.forall_mem_singleton.2 (.scalar .null))

theorem noNaNKeys_truthOverride : truthOverride.NoNaNKeys := by
  refine .mapping (by decide) (List.forall_mem_cons.2 ⟨.leaf rfl, List.forall_mem_cons.2
    ⟨?_, List.forall_mem_cons.2 ⟨?_, List.forall_mem_singleton.2 (.leaf rfl)⟩⟩⟩)
  · exact .mapping (by decide) (List.forall_mem_cons.2 ⟨.mapping (by decide) (by simp),
      List.forall_mem_singleton.2 (.leaf rfl)⟩)
  · exact .mapping (by decide) (List.forall_mem_singleton.2 (.leaf rfl))

/-- The override writes a key of the base in another way, puts a mapping in the place of a number
and a list in the place of a mapping. -/
theorem merge_merge_self_spellings : numberedBase.NestsFinitely ∧ truthOverride.IsBase ∧
    truthOverride.NoNaNKeys ∧
    (numberedBase.merge truthOverride).merge truthOverride = numberedBase.merge truthOverride :=
  ⟨nestsFinitely_numberedBase, isBase_truthOverride, noNaNKeys_truthOverride,
    merge_merge_self nestsFinitely_numberedBase isBase_truthOverride noNaNKeys_truthOverride⟩

end Document

end AccessPolicy
