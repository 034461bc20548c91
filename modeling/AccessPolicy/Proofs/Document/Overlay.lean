import AccessPolicy.Proofs.Document.Keys

/-!
# What merging leaves at a path

A path is a list of keys that leads from mapping to mapping (`Document.at?`). Laying an
override over a base leaves at every path what the override has there; where the override has
nothing there, and nothing on the way that is no mapping, it leaves what the base has
(`Document.at?_merge_of_some`, `Document.at?_merge_of_none`).

`Document.isOverlay_merge` puts this together for all paths, with the order of the keys. So a
name that the base has is lost only where the override puts something that is no mapping in
the place of a mapping around it.
-/

namespace AccessPolicy

/-! ## Paths -/

/-- The value that a path of keys leads to. -/
def Document.at? (d : Document) : List Key → Option Document
  | [] => some d
  | k :: ks =>
    match d.entries? with
    | some es =>
      match Entries.lookup k es with
      | some v => v.at? ks
      | none => none
    | none => none

/-- No way from mapping to mapping goes on for ever. -/
inductive Document.NestsFinitely : Document → Prop
  | leaf {d : Document} (h : d.isMapping = false) : NestsFinitely d
  | mapping {es : Entries} (h : ∀ e ∈ es, NestsFinitely e.2) : NestsFinitely (.mapping es)

/-- The document can be a base : every mapping names its entries once, and none contains
itself. -/
structure Document.IsBase (d : Document) : Prop where
  distinctKeys : d.DistinctKeys
  nestsFinitely : d.NestsFinitely

/-- A value on the way to the end of the path is no mapping. -/
def Document.Blocked (d : Document) (p : List Key) : Prop :=
  ∃ q v, q <+: p ∧ q ≠ p ∧ d.at? q = some v ∧ v.isMapping = false

namespace Document

variable {b o u v : Document} {bs os : Entries} {k : Key} {ks : List Key}

theorem isBase_scalar (s : Scalar) : (scalar s).IsBase :=
  ⟨.scalar s, .leaf rfl⟩

theorem isMapping_iff {d : Document} : d.isMapping = true ↔ ∃ es, d.entries? = some es :=
  Option.isSome_iff_exists

theorem NestsFinitely.exists_mapping (h : b.NestsFinitely) (hb : b.isMapping = true) :
    ∃ bs, b = .mapping bs ∧ ∀ e ∈ bs, e.2.NestsFinitely := by
  cases h with
  | leaf h =>
    rw [h] at hb
    cases hb
  | mapping h => exact ⟨_, rfl, h⟩

@[simp] theorem at?_nil (d : Document) : d.at? [] = some d := by
  rw [at?]

theorem at?_cons (h : o.entries? = some os) :
    o.at? (k :: ks) = (Entries.lookup k os).bind (·.at? ks) := by
  simp only [at?, h]
  cases Entries.lookup k os <;> rfl

theorem at?_cons_of_lookup (h : o.entries? = some os) (hk : Entries.lookup k os = some v) :
    o.at? (k :: ks) = v.at? ks := by
  rw [at?_cons h, hk, Option.bind_some]

theorem at?_cons_of_lookup_none (h : o.entries? = some os) (hk : Entries.lookup k os = none) :
    o.at? (k :: ks) = none := by
  rw [at?_cons h, hk, Option.bind_none]

theorem at?_cons_of_not_isMapping (h : o.isMapping = false) : o.at? (k :: ks) = none := by
  have hnone : o.entries? = none := by simpa [isMapping] using h
  simp only [at?, hnone]

theorem at?_append (d : Document) : ∀ p q : List Key, d.at? (p ++ q) = (d.at? p).bind (·.at? q)
  | [], q => by simp
  | k :: p, q => by
    rw [List.cons_append]
    cases hd : d.entries? with
    | none => simp only [at?, hd, Option.bind_none]
    | some es =>
      rw [at?_cons hd, at?_cons hd]
      cases Entries.lookup k es with
      | none => rfl
      | some v => exact at?_append v p q

/-- Below a mapping a path is blocked where its rest is. -/
theorem blocked_cons_iff (h : o.entries? = some os) (hk : Entries.lookup k os = some v) :
    o.Blocked (k :: ks) ↔ v.Blocked ks := by
  constructor
  · rintro ⟨q, w, hq, hne, hw, hmap⟩
    cases q with
    | nil =>
      obtain rfl : o = w := by simpa using hw
      rw [isMapping, h] at hmap
      cases hmap
    | cons k' q =>
      obtain ⟨rfl, hrest⟩ := List.cons_prefix_cons.1 hq
      rw [at?_cons_of_lookup h hk] at hw
      exact ⟨q, w, hrest, fun heq => hne (heq ▸ rfl), hw, hmap⟩
  · rintro ⟨q, w, hq, hne, hw, hmap⟩
    refine ⟨k :: q, w, List.cons_prefix_cons.2 ⟨rfl, hq⟩, by simpa using hne, ?_, hmap⟩
    rw [at?_cons_of_lookup h hk, hw]

theorem not_blocked_cons_of_lookup_none (h : o.entries? = some os)
    (hk : Entries.lookup k os = none) : ¬ o.Blocked (k :: ks) := by
  rintro ⟨q, w, hq, -, hw, hmap⟩
  cases q with
  | nil =>
    obtain rfl : o = w := by simpa using hw
    rw [isMapping, h] at hmap
    cases hmap
  | cons k' q =>
    obtain ⟨rfl, -⟩ := List.cons_prefix_cons.1 hq
    rw [at?_cons_of_lookup_none h hk] at hw
    cases hw

end Document

/-! ## One layer -/

namespace Entries

/-- Keys that are the same find the same value. -/
theorem lookup_congr {k k' : Key} (h : k.same k' = true) : ∀ es : Entries,
    lookup k es = lookup k' es
  | [] => rfl
  | (k'', v) :: es => by
    rw [lookup, lookup, Key.same_congr h, lookup_congr h es]

theorem lookup_append (k : Key) : ∀ es es' : Entries,
    lookup k (es ++ es') = (lookup k es).or (lookup k es')
  | [], es' => by simp [lookup]
  | (k', v) :: es, es' => by
    rw [List.cons_append, lookup, lookup]
    split
    · rfl
    · exact lookup_append k es es'

/-- What a value of the base becomes under the value that the override has for it. -/
def laidOver (b : Document) : Option Document → Document
  | none => b
  | some v => if b.isMapping && v.isMapping then Document.merge b v else v

theorem overlaid_cons (os : Entries) (k : Key) (b : Document) (bs : Entries) :
    overlaid os ((k, b) :: bs) = (k, laidOver b (lookup k os)) :: overlaid os bs := by
  rw [overlaid]
  cases lookup k os <;> rfl

theorem overlaid_eq_map (os : Entries) : ∀ bs : Entries,
    overlaid os bs = bs.map fun e => (e.1, laidOver e.2 (lookup e.1 os))
  | [] => by simp [overlaid]
  | (k, b) :: bs => by rw [overlaid_cons, overlaid_eq_map os bs, List.map_cons]

theorem lookup_overlaid (os : Entries) (k : Key) : ∀ bs : Entries,
    lookup k (overlaid os bs) = (lookup k bs).map fun b => laidOver b (lookup k os)
  | [] => rfl
  | (k', b) :: bs => by
    rw [overlaid_cons, lookup, lookup]
    split
    · next h => rw [Option.map_some, lookup_congr h]
    · exact lookup_overlaid os k bs

theorem lookup_added {bs : Entries} {k : Key} (h : lookup k bs = none) : ∀ os : Entries,
    lookup k (added bs os) = lookup k os
  | [] => rfl
  | (k', v) :: os => by
    rw [lookup]
    split
    · next hk =>
      have hnot : has k' bs = false := by rw [has, ← lookup_congr hk, h]; rfl
      rw [added, List.filter_cons_of_pos (by simp [hnot]), lookup, if_pos hk]
    · next hk =>
      by_cases hhas : has k' bs = true
      · rw [added, List.filter_cons_of_neg (by simp [hhas])]
        exact lookup_added h os
      · rw [added, List.filter_cons_of_pos (by simp [hhas]), lookup, if_neg hk]
        exact lookup_added h os

/-- What the merged entries have for a key. -/
theorem lookup_merged (bs os : Entries) (k : Key) : lookup k (overlaid os bs ++ added bs os) =
    match lookup k bs with
    | some b => some (laidOver b (lookup k os))
    | none => lookup k os := by
  rw [lookup_append, lookup_overlaid]
  cases h : lookup k bs with
  | none => simp [lookup_added h]
  | some b => rfl

end Entries

namespace Document

variable {b o u v w : Document} {bs os : Entries} {k : Key} {p ks : List Key}

theorem merge_mapping (h : o.entries? = some os) : Document.merge (.mapping bs) o =
    .mapping (Entries.overlaid os bs ++ Entries.added bs os) := by
  unfold merge
  split
  · cases h
  · next hb _ =>
    cases hb
    rw [h]
  · next hne => exact absurd rfl (hne bs)

theorem merge_null (b : Document) : Document.merge b .null = b := by
  rw [merge]

/-- Unless two mappings meet, the override replaces the base. -/
theorem merge_of_replaced (ho : o ≠ .null)
    (h : ¬ ((∃ bs, b = .mapping bs) ∧ o.isMapping = true)) : Document.merge b o = o := by
  unfold merge
  split
  · exact absurd rfl ho
  · split
    · next hos => exact absurd ⟨⟨_, rfl⟩, isMapping_iff.2 ⟨_, hos⟩⟩ h
    · rfl
  · rfl

theorem entries?_merge (h : o.entries? = some os) : (Document.merge (.mapping bs) o).entries? =
    some (Entries.overlaid os bs ++ Entries.added bs os) := by
  rw [merge_mapping h]
  rfl

/-! ## Paths of a merged document -/

theorem at?_merge_cons (h : o.entries? = some os) :
    ((Document.mapping bs).merge o).at? (k :: ks) =
      match Entries.lookup k bs with
      | some u => (Entries.laidOver u (Entries.lookup k os)).at? ks
      | none => (Entries.lookup k os).bind (·.at? ks) := by
  rw [at?_cons (entries?_merge h), Entries.lookup_merged]
  cases Entries.lookup k bs <;> rfl

theorem laidOver_of_replaced (h : ¬ (u.isMapping = true ∧ v.isMapping = true)) :
    Entries.laidOver u (some v) = v := by
  rw [Entries.laidOver, if_neg (by simpa using h)]

theorem laidOver_of_isMapping (hu : u.isMapping = true) (hv : v.isMapping = true) :
    Entries.laidOver u (some v) = u.merge v := by
  rw [Entries.laidOver, if_pos (by simp [hu, hv])]

/-- Where a value is replaced, the path leads on in the new one. -/
theorem at?_of_replaced (h : ¬ (u.isMapping = true ∧ w.isMapping = true))
    (hv : w.at? p = some v) : w.at? p = some (match u.at? p with
      | some u => Entries.laidOver u (some v)
      | none => v) := by
  cases p with
  | nil =>
    obtain rfl : w = v := by simpa using hv
    simp [laidOver_of_replaced h]
  | cons k ks =>
    have hw : w.isMapping = true := by
      by_contra hw
      rw [Bool.not_eq_true] at hw
      rw [at?_cons_of_not_isMapping hw] at hv
      cases hv
    have hu : u.isMapping = false := Bool.eq_false_iff.2 fun hu => h ⟨hu, hw⟩
    rw [hv, at?_cons_of_not_isMapping hu]

/-- Where a value is replaced, the path is at an end with the old one, too, or it is blocked. -/
theorem at?_eq_none_of_replaced (h : ¬ (u.isMapping = true ∧ w.isMapping = true))
    (hv : w.at? p = none) (hfree : ¬ w.Blocked p) : u.at? p = none := by
  cases p with
  | nil => simp at hv
  | cons k ks =>
    refine at?_cons_of_not_isMapping (Bool.eq_false_iff.2 fun hu => hfree ?_)
    have hw : w.isMapping = false := Bool.eq_false_iff.2 fun hw => h ⟨hu, hw⟩
    exact ⟨[], w, List.nil_prefix, nofun, at?_nil w, hw⟩

/-- Where the override has a value, that is what is left, laid over what the base has there. -/
theorem at?_merge_of_some (hb : b.NestsFinitely) (hbm : b.isMapping = true)
    (hom : o.isMapping = true) (hv : o.at? p = some v) : (b.merge o).at? p =
      some (match b.at? p with
        | some u => Entries.laidOver u (some v)
        | none => v) := by
  induction p generalizing b o with
  | nil =>
    obtain rfl : o = v := by simpa using hv
    simp [laidOver_of_isMapping hbm hom]
  | cons k ks ih =>
    obtain ⟨bs, rfl, hbs⟩ := hb.exists_mapping hbm
    obtain ⟨os, hos⟩ := isMapping_iff.1 hom
    rw [at?_cons hos, Option.bind_eq_some_iff] at hv
    obtain ⟨w, hk, hv⟩ := hv
    rw [at?_merge_cons hos, at?_cons (o := .mapping bs) rfl, hk]
    cases hbk : Entries.lookup k bs with
    | none => exact hv
    | some u =>
      obtain ⟨e, he, -, rfl⟩ := Entries.mem_of_lookup hbk
      by_cases hboth : e.2.isMapping = true ∧ w.isMapping = true
      · simp only [laidOver_of_isMapping hboth.1 hboth.2]
        exact ih (hbs e he) hboth.1 hboth.2 hv
      · simp only [laidOver_of_replaced hboth]
        exact at?_of_replaced hboth hv

/-- Where the override has no value, it leaves that of the base, unless it blocks the way. -/
theorem at?_merge_of_none (hb : b.NestsFinitely) (hbm : b.isMapping = true)
    (hom : o.isMapping = true) (hv : o.at? p = none) :
    (o.Blocked p → (b.merge o).at? p = none) ∧
      (¬ o.Blocked p → (b.merge o).at? p = b.at? p) := by
  induction p generalizing b o with
  | nil => simp at hv
  | cons k ks ih =>
    obtain ⟨bs, rfl, hbs⟩ := hb.exists_mapping hbm
    obtain ⟨os, hos⟩ := isMapping_iff.1 hom
    rw [at?_merge_cons hos, at?_cons (o := .mapping bs) rfl]
    rw [at?_cons hos] at hv
    cases hk : Entries.lookup k os with
    | none =>
      refine ⟨fun h => absurd h (not_blocked_cons_of_lookup_none hos hk), fun _ => ?_⟩
      cases Entries.lookup k bs <;> rfl
    | some w =>
      rw [hk, Option.bind_some] at hv
      rw [blocked_cons_iff hos hk]
      cases hbk : Entries.lookup k bs with
      | none => exact ⟨fun _ => hv, fun _ => hv⟩
      | some u =>
        obtain ⟨e, he, -, rfl⟩ := Entries.mem_of_lookup hbk
        by_cases hboth : e.2.isMapping = true ∧ w.isMapping = true
        · simp only [laidOver_of_isMapping hboth.1 hboth.2]
          exact ih (hbs e he) hboth.1 hboth.2 hv
        · simp only [laidOver_of_replaced hboth]
          exact ⟨fun _ => hv, fun hfree =>
            hv.trans (at?_eq_none_of_replaced hboth hv hfree).symm⟩

/-- The keys of merged mappings : those of the base as it writes them, then the new ones. -/
theorem keys_merge (hb : b.NestsFinitely) (hbm : b.isMapping = true) (hom : o.isMapping = true) :
    (b.merge o).isMapping = true ∧ (b.merge o).entries.keys =
      b.entries.keys ++ o.entries.keys.filter fun k => !Entries.has k b.entries := by
  obtain ⟨bs, rfl, -⟩ := hb.exists_mapping hbm
  obtain ⟨os, hos⟩ := isMapping_iff.1 hom
  have hbs : (Document.mapping bs).entries = bs := rfl
  have hoe : o.entries = os := by rw [entries, hos, Option.getD_some]
  have hme : (Document.merge (.mapping bs) o).entries =
      Entries.overlaid os bs ++ Entries.added bs os := by
    rw [entries, entries?_merge hos, Option.getD_some]
  refine ⟨by rw [isMapping, entries?_merge hos]; rfl, ?_⟩
  rw [hme, hbs, hoe, Entries.keys, List.map_append]
  congr 1
  · exact Entries.keys_overlaid os bs
  · rw [Entries.keys, List.filter_map]
    rfl

theorem NestsFinitely.at? (hb : b.NestsFinitely) (h : b.at? p = some u) : u.NestsFinitely := by
  induction p generalizing b with
  | nil =>
    obtain rfl : b = u := by simpa using h
    exact hb
  | cons k ks ih =>
    by_cases hbm : b.isMapping = true
    · obtain ⟨bs, rfl, hbs⟩ := hb.exists_mapping hbm
      rw [at?_cons (o := .mapping bs) rfl, Option.bind_eq_some_iff] at h
      obtain ⟨v, hbk, h⟩ := h
      obtain ⟨e, he, -, rfl⟩ := Entries.mem_of_lookup hbk
      exact ih (hbs e he) h
    · rw [Bool.not_eq_true] at hbm
      rw [at?_cons_of_not_isMapping hbm] at h
      cases h

/-- The document `m` is the override `o` laid over the base `b`. -/
structure IsOverlay (b o m : Document) : Prop where
  /-- What is no mapping replaces whatever the base has. -/
  replaced : ∀ p v, o.at? p = some v → v.isMapping = false → m.at? p = some v
  /-- Two mappings merge. -/
  merged : ∀ p u v, o.at? p = some v → v.isMapping = true → b.at? p = some u →
    u.isMapping = true → m.at? p = some (u.merge v)
  /-- A mapping replaces what is no mapping, and is new where there is nothing. -/
  fresh : ∀ p v, o.at? p = some v → v.isMapping = true →
    (∀ u, b.at? p = some u → u.isMapping = false) → m.at? p = some v
  kept : ∀ p, o.at? p = none → ¬ o.Blocked p → m.at? p = b.at? p
  gone : ∀ p, o.Blocked p → m.at? p = none
  keys : ∀ p u v, o.at? p = some v → v.isMapping = true → b.at? p = some u →
    u.isMapping = true → ∃ w, m.at? p = some w ∧ w.isMapping = true ∧
      w.entries.keys = u.entries.keys ++ v.entries.keys.filter fun k => !Entries.has k u.entries
  /-- A name is lost only with a whole mapping around it. -/
  lost : ∀ p k, (b.at? (p ++ [k])).isSome = true → m.at? (p ++ [k]) = none →
    ∃ q v, q <+: p ∧ o.at? q = some v ∧ v.isMapping = false

theorem Blocked.at?_eq_none (h : o.Blocked p) : o.at? p = none := by
  obtain ⟨q, v, ⟨r, rfl⟩, hne, hv, hmap⟩ := h
  cases r with
  | nil => simp at hne
  | cons k r => rw [at?_append, hv, Option.bind_some, at?_cons_of_not_isMapping hmap]

/-- Merging mappings lays one over the other, at every path. -/
theorem isOverlay_merge (hb : b.NestsFinitely) (hbm : b.isMapping = true)
    (hom : o.isMapping = true) : IsOverlay b o (b.merge o) := by
  have hmerged : ∀ p u v, o.at? p = some v → v.isMapping = true → b.at? p = some u →
      u.isMapping = true → (b.merge o).at? p = some (u.merge v) := by
    intro p u v hv hvm hu hum
    rw [at?_merge_of_some hb hbm hom hv, hu]
    simp [Entries.laidOver, hvm, hum]
  refine ⟨fun p v hv hvm => ?_, hmerged, fun p v hv hvm hbase => ?_,
    fun p hv hfree => (at?_merge_of_none hb hbm hom hv).2 hfree,
    fun p hblocked => (at?_merge_of_none hb hbm hom hblocked.at?_eq_none).1 hblocked,
    fun p u v hv hvm hu hum => ⟨_, hmerged p u v hv hvm hu hum, keys_merge (hb.at? hu) hum hvm⟩,
    fun p k hk hnone => ?_⟩
  · rw [at?_merge_of_some hb hbm hom hv]
    cases b.at? p <;> simp [Entries.laidOver, hvm]
  · rw [at?_merge_of_some hb hbm hom hv]
    cases hu : b.at? p with
    | none => rfl
    | some u => simp [Entries.laidOver, hbase u hu]
  · cases hv : o.at? (p ++ [k]) with
    | some v =>
      rw [at?_merge_of_some hb hbm hom hv] at hnone
      cases hnone
    | none =>
      by_cases hblocked : o.Blocked (p ++ [k])
      · obtain ⟨q, v, hq, hne, hat, hmap⟩ := hblocked
        exact ⟨q, v, (List.prefix_concat_iff.1 hq).resolve_left hne, hat, hmap⟩
      · rw [(at?_merge_of_none hb hbm hom hv).2 hblocked] at hnone
        rw [hnone] at hk
        cases hk

/-- A base with a mapping, a scalar and a mapping that is about to go. -/
def numberedBase : Document :=
  .mapping [
    (.scalar (.int 1), .mapping [(.text "a", .int 0), (.text "b", .null)]),
    (.text "x", .int 5),
    (.text "y", .mapping [(.text "c", .text "d")])]

/-- An override that names the first entry by another spelling of its key. -/
def truthOverride : Document :=
  .mapping [
    (.text "z", .null),
    (.scalar (.bool true), .mapping [(.text "b", .mapping []), (.text "e", .sequence [])]),
    (.text "x", .mapping [(.text "f", .null)]),
    (.text "y", .sequence [])]

theorem nestsFinitely_numberedBase : numberedBase.NestsFinitely := by
  refine .mapping (List.forall_mem_cons.2 ⟨.mapping ?_, List.forall_mem_cons.2 ⟨.leaf rfl,
    List.forall_mem_singleton.2 (.mapping (List.forall_mem_singleton.2 (.leaf rfl)))⟩⟩)
  exact List.forall_mem_cons.2 ⟨.leaf rfl, List.forall_mem_singleton.2 (.leaf rfl)⟩

theorem isOverlay_merge_spellings : numberedBase.NestsFinitely ∧ numberedBase.isMapping = true ∧
    truthOverride.isMapping = true ∧
    IsOverlay numberedBase truthOverride (numberedBase.merge truthOverride) ∧
    (numberedBase.merge truthOverride).entries.keys =
      [.scalar (.int 1), .text "x", .text "y", .text "z"] :=
  ⟨nestsFinitely_numberedBase, rfl, rfl,
    isOverlay_merge nestsFinitely_numberedBase rfl rfl, rfl⟩

end Document

end AccessPolicy
