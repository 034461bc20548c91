import AccessPolicy.Proofs.Document.Spelling

/-!
# Overrides that commute

Two overrides are compatible if they have values at the same path only where both have mappings
(`Document.Compatible`). Laid over a base one after the other, they leave the same nested
mappings in either order (`Document.merge_right_comm`). Neither may contain itself : such an
override replaces what is no mapping whole, and nothing can be laid over it.

Entries are compared by what is found under a key (`Entries.paired_of_lookup`), and laying one
override over another is an operation on what is found there (`Entries.lookup_merge`). Where
both have a mapping the argument goes on below it, with nothing as the base if the base has
none. The overrides may write a key differently, and then the first one laid over the base
decides how it is written, so keys are compared by the entry that they name (`Key.Names`).
-/

namespace AccessPolicy

/-! ## Entries by what is found under a key -/

namespace Entries

variable {R : Document → Document → Prop} {es fs : Entries} {k : Key}

/-- The entries whose keys are not found, not even by themselves : those of a not-a-number. -/
def nameless (es : Entries) : Entries :=
  es.filter fun e => !e.1.same e.1

/-- The entries whose keys find them. -/
def named (es : Entries) : Entries :=
  es.filter fun e => e.1.same e.1

theorem lookup_eq_none_of_nameless (hk : k.same k = false) (es : Entries) :
    es.lookup k = none := by
  refine Option.eq_none_iff_forall_ne_some.2 fun v h => ?_
  obtain ⟨e, -, hsame, -⟩ := mem_of_lookup h
  rw [Key.same_congr hsame, Key.same_comm, hsame] at hk
  cases hk

theorem lookup_ne_none_of_mem {e : Key × Document} (he : e ∈ es) (hself : e.1.same e.1 = true) :
    es.lookup e.1 ≠ none := fun hnone => by
  rw [same_eq_false_of_lookup hnone e he] at hself
  cases hself

theorem lookup_named (k : Key) : ∀ es : Entries, es.named.lookup k = es.lookup k
  | [] => rfl
  | (k', v) :: es => by
    rw [lookup, named]
    by_cases hself : k'.same k' = true
    · rw [List.filter_cons_of_pos (by exact hself), lookup, ← named, lookup_named k es]
    · have hne : k.same k' = false := by
        refine Bool.eq_false_iff.2 fun hk => hself ?_
        rw [← Key.same_congr hk, hk]
      rw [List.filter_cons_of_neg (by exact hself), hne, ← named, lookup_named k es]
      rfl

/-- A member first, before the rest. -/
theorem perm_cons_of_mem {e : Key × Document} (he : e ∈ es) : ∃ es', es.Perm (e :: es') := by
  obtain ⟨l, r, rfl⟩ := List.append_of_mem he
  exact ⟨l ++ r, List.perm_middle⟩

/-- Under the first key nothing is found in the rest, and under another key all the rest. -/
theorem lookup_rest {e : Key × Document} (apart : Key.Apart (keys (e :: es))) (k : Key) :
    es.lookup k = if k.same e.1 then none else lookup k (e :: es) := by
  rw [lookup]
  split
  · next hk =>
    refine Option.eq_none_iff_forall_ne_some.2 fun v h => ?_
    obtain ⟨f, hf, hsame, -⟩ := mem_of_lookup h
    have hne := List.rel_of_pairwise_cons apart (List.mem_map_of_mem hf)
    rw [← Key.same_congr hk, hsame] at hne
    cases hne
  · rfl

/-- Entries in which related values are found under every key are paired. -/
theorem paired_of_lookup_named : ∀ {es fs : Entries}, Key.Apart es.keys → Key.Apart fs.keys →
    (∀ e ∈ es, e.1.same e.1 = true) → (∀ f ∈ fs, f.1.same f.1 = true) →
    (∀ k, Option.Rel R (es.lookup k) (fs.lookup k)) → Paired (fun _ => R) es fs
  | es, [], _, _, hes, _, h => by
    have hnil : es = [] := by
      refine List.eq_nil_iff_forall_not_mem.2 fun e he => ?_
      have hrel := h e.1
      rw [lookup] at hrel
      cases hlookup : es.lookup e.1 with
      | none => exact lookup_ne_none_of_mem he (hes e he) hlookup
      | some v =>
        rw [hlookup] at hrel
        cases hrel
    obtain rfl := hnil
    exact ⟨[], .refl _, .nil⟩
  | es, f :: fs, apart, apart', hes, hfs, h => by
    obtain ⟨hself, hfs'⟩ := List.forall_mem_cons.1 hfs
    have hrel := h f.1
    rw [lookup, if_pos hself] at hrel
    obtain ⟨v, hv, hr⟩ : ∃ v, es.lookup f.1 = some v ∧ R v f.2 := by
      cases hlookup : es.lookup f.1 with
      | none =>
        rw [hlookup] at hrel
        cases hrel
      | some v =>
        rw [hlookup] at hrel
        cases hrel with
        | some hr => exact ⟨v, rfl, hr⟩
    obtain ⟨e, he, hnames, rfl⟩ := mem_of_lookup hv
    obtain ⟨es', hperm⟩ := perm_cons_of_mem he
    have apart_es := apart_perm hperm apart
    have hes' : ∀ e ∈ es', e.1.same e.1 = true := fun e he =>
      hes e (hperm.mem_iff.2 (List.mem_cons_of_mem _ he))
    obtain ⟨gs, hgs, hall⟩ := paired_of_lookup_named (List.Pairwise.of_cons apart_es)
      (List.Pairwise.of_cons apart') hes' hfs' fun k => by
        rw [lookup_rest apart_es, lookup_rest apart', ← lookup_perm k hperm apart,
          (Key.Names.symm (.inr hnames)).same_eq k]
        split
        · exact .none
        · exact h k
    exact ⟨e :: gs, hperm.trans (hgs.cons e), .cons ⟨Key.Names.symm (.inr hnames), hr⟩ hall⟩

/-- Entries are paired if related values are found under every key, and the entries that no key
finds are the same. -/
theorem paired_of_lookup (hR : ∀ d, R d d) (hes : Key.Apart es.keys) (hfs : Key.Apart fs.keys)
    (hnameless : es.nameless.Perm fs.nameless)
    (h : ∀ k, Option.Rel R (es.lookup k) (fs.lookup k)) : Paired (fun _ => R) es fs := by
  have apart : ∀ {es : Entries}, Key.Apart es.keys → Key.Apart es.named.keys := fun apart =>
    List.Pairwise.sublist (List.filter_sublist.map _) apart
  have hself : ∀ {es : Entries}, ∀ e ∈ es.named, e.1.same e.1 = true := fun e he =>
    (List.mem_filter.1 he).2
  have hnamed : Paired (fun _ => R) es.named fs.named :=
    paired_of_lookup_named (apart hes) (apart hfs) hself hself fun k => by
      rw [lookup_named, lookup_named]
      exact h k
  have hrest : Paired (fun _ => R) es.nameless fs.nameless :=
    ⟨_, hnameless, List.forall₂_same.2 fun e _ => ⟨.refl e.1, hR e.2⟩⟩
  exact (hnamed.append hrest).of_perm (List.filter_append_perm _ es).symm
    (List.filter_append_perm _ fs)

/-! ### Laying entries over entries -/

/-- The entries of a base with those of an override laid over them. -/
def merge (bs os : Entries) : Entries :=
  overlaid os bs ++ added bs os

/-- What the override has for a key laid over what the base has for it. -/
def laid : Option Document → Option Document → Option Document
  | some b, v => some (laidOver b v)
  | none, v => v

theorem lookup_merge (bs os : Entries) (k : Key) :
    (bs.merge os).lookup k = laid (bs.lookup k) (os.lookup k) := by
  rw [merge, lookup_merged]
  cases bs.lookup k <;> rfl

theorem laid_none (b : Option Document) : laid b none = b := by
  cases b <;> rfl

theorem nil_merge (os : Entries) : merge [] os = os := by
  simp [merge, overlaid, added, has, lookup]

/-- The override changes no entry that is not found, and adds its own. -/
theorem nameless_merge (bs os : Entries) : (bs.merge os).nameless = bs.nameless ++ os.nameless := by
  rw [merge, nameless, List.filter_append]
  congr 1
  · rw [overlaid_eq_map, List.filter_map, nameless]
    refine (List.map_congr_left fun e he => ?_).trans (List.map_id _)
    have hself : e.1.same e.1 = false := by simpa using (List.mem_filter.1 he).2
    rw [lookup_eq_none_of_nameless hself, laidOver, id]
  · rw [added, List.filter_filter, nameless]
    refine List.filter_congr fun e _ => ?_
    by_cases hself : e.1.same e.1 = true
    · simp [hself]
    · rw [Bool.not_eq_true] at hself
      simp [hself, has, lookup_eq_none_of_nameless hself]

end Entries

/-! ## Nested mappings -/

/-- The documents are equal as nested mappings : the same entries in any order, under keys that
name them alike. What is no mapping is the same in both. -/
inductive Document.SameMappings : Document → Document → Prop
  | refl (d : Document) : SameMappings d d
  | mapping {es gs fs : Entries} : es.Perm gs →
      List.Forall₂ (fun e f => e.1.Names f.1) gs fs →
      List.Forall₂ (fun e f => SameMappings e.2 f.2) gs fs →
      SameMappings (.mapping es) (.mapping fs)

/-- Where both overrides have a value, both have a mapping; so both are mappings. -/
def Document.Compatible (o o' : Document) : Prop :=
  ∀ p v v', o.at? p = some v → o'.at? p = some v' → v.isMapping = true ∧ v'.isMapping = true

namespace Document

variable {b o o' u v : Document} {os os' : Entries} {k : Key}

theorem SameMappings.of_paired {es fs : Entries}
    (h : Entries.Paired (fun _ => SameMappings) es fs) :
    SameMappings (.mapping es) (.mapping fs) := by
  obtain ⟨gs, hperm, hall⟩ := h
  exact .mapping hperm (hall.imp fun _ _ hef => hef.1) (hall.imp fun _ _ hef => hef.2)

namespace Compatible

theorem isMapping (h : o.Compatible o') : o.isMapping = true ∧ o'.isMapping = true :=
  h [] o o' (at?_nil o) (at?_nil o')

theorem below (h : (mapping os).Compatible (.mapping os')) (hu : os.lookup k = some u)
    (hv : os'.lookup k = some v) : u.Compatible v := fun p w w' hw hw' => by
  refine h (k :: p) w w' ?_ ?_
  · rw [at?_cons_of_lookup rfl hu, hw]
  · rw [at?_cons_of_lookup rfl hv, hw']

/-- Mappings are compatible if what they have under keys that are the same is. -/
theorem mapping (h : ∀ e ∈ os, ∀ e' ∈ os', e.1.same e'.1 = true → e.2.Compatible e'.2) :
    (mapping os).Compatible (.mapping os') := by
  intro p v v' hv hv'
  cases p with
  | nil =>
    obtain rfl := Option.some.inj ((at?_nil _).symm.trans hv)
    obtain rfl := Option.some.inj ((at?_nil _).symm.trans hv')
    exact ⟨rfl, rfl⟩
  | cons k p =>
    rw [at?_cons rfl, Option.bind_eq_some_iff] at hv hv'
    obtain ⟨u, hu, hv⟩ := hv
    obtain ⟨u', hu', hv'⟩ := hv'
    obtain ⟨e, he, hk, rfl⟩ := Entries.mem_of_lookup hu
    obtain ⟨e', he', hk', rfl⟩ := Entries.mem_of_lookup hu'
    exact h e he e' he' (Key.same_congr hk _ ▸ hk') p v v' hv hv'

end Compatible

/-- The entries that an override of mappings is laid over : none, if the base is no mapping or
contains itself. -/
def baseEntries : Document → Entries
  | .mapping bs => bs
  | _ => []

@[simp] theorem baseEntries_mapping (bs : Entries) : (mapping bs).baseEntries = bs := rfl

theorem DistinctKeys.of_lookup_baseEntries (hb : b.DistinctKeys)
    (hv : b.baseEntries.lookup k = some v) : v.DistinctKeys := by
  cases hb with
  | mapping apart h =>
    obtain ⟨e, he, -, rfl⟩ := Entries.mem_of_lookup hv
    exact h e he
  | scalar | sequence | tuple | set | cyclic => cases hv

/-- A mapping takes the place of what it cannot be laid over. -/
theorem merge_of_forall_ne_mapping (hb : ∀ bs, b ≠ .mapping bs) (hv : v.isMapping = true) :
    b.merge v = v := by
  refine merge_of_replaced ?_ fun ⟨h, _⟩ => h.elim hb
  rintro rfl
  cases hv

theorem merge_entries (b : Document) (os : Entries) :
    b.merge (.mapping os) = .mapping (b.baseEntries.merge os) := by
  have hempty : mapping os = mapping (Entries.merge [] os) := by rw [Entries.nil_merge]
  cases b with
  | mapping bs => exact merge_mapping rfl
  | scalar | sequence | tuple | set | cyclic =>
    exact (merge_of_forall_ne_mapping (by simp) rfl).trans hempty

/-- A mapping is laid over whatever is there as over the value itself, or over nothing. -/
theorem laid_of_isMapping (b : Option Document) (hv : v.isMapping = true) :
    Entries.laid b (some v) = some ((b.getD .null).merge v) := by
  cases b with
  | none => exact congrArg some (merge_of_forall_ne_mapping (by simp) hv).symm
  | some b =>
    refine congrArg some ?_
    by_cases hb : b.isMapping = true
    · exact laidOver_of_isMapping hb hv
    · rw [laidOver_of_replaced fun h => hb h.1, Option.getD_some, merge_of_forall_ne_mapping ?_ hv]
      rintro bs rfl
      exact hb rfl

/-- Values that two overrides have under one key can be laid over that of the base in either
order if they can where both have one. -/
theorem rel_laid {x u v : Option Document} (h : ∀ w w', u = some w → v = some w' →
      (w.isMapping = true ∧ w'.isMapping = true) ∧
        SameMappings (((x.getD .null).merge w).merge w') (((x.getD .null).merge w').merge w)) :
    Option.Rel SameMappings (Entries.laid (Entries.laid x u) v)
      (Entries.laid (Entries.laid x v) u) := by
  have rel_refl : ∀ y : Option Document, Option.Rel SameMappings y y := fun
    | none => .none
    | some d => .some (.refl d)
  cases u with
  | none =>
    rw [Entries.laid_none, Entries.laid_none]
    exact rel_refl _
  | some w =>
    cases v with
    | none =>
      rw [Entries.laid_none, Entries.laid_none]
      exact rel_refl _
    | some w' =>
      obtain ⟨⟨hw, hw'⟩, hsame⟩ := h w w' rfl rfl
      rw [laid_of_isMapping _ hw, laid_of_isMapping _ hw', laid_of_isMapping _ hw',
        laid_of_isMapping _ hw]
      exact .some hsame

/-- Compatible overrides that do not contain themselves can be laid over a base in either
order. -/
theorem merge_right_comm (ho : o.NestsFinitely) (ho' : o'.NestsFinitely) (hb : b.DistinctKeys)
    (hd : o.DistinctKeys) (hd' : o'.DistinctKeys) (h : o.Compatible o') :
    SameMappings ((b.merge o).merge o') ((b.merge o').merge o) := by
  induction ho generalizing b o' with
  | leaf hleaf =>
    rw [h.isMapping.1] at hleaf
    cases hleaf
  | @mapping os hos ih =>
    obtain ⟨os', rfl, hos'⟩ := ho'.exists_mapping h.isMapping.2
    have distinct := (hb.merge hd).merge hd'
    have distinct' := (hb.merge hd').merge hd
    simp only [merge_entries, baseEntries_mapping] at distinct distinct' ⊢
    refine .of_paired (Entries.paired_of_lookup .refl (distinctKeys_mapping.1 distinct).1
      (distinctKeys_mapping.1 distinct').1 ?_ fun k => ?_)
    · simp only [Entries.nameless_merge, List.append_assoc]
      exact List.perm_append_comm.append_left _
    · simp only [Entries.lookup_merge]
      refine rel_laid fun u v hu hv => ?_
      -- the base may have a mapping here, something else or nothing
      have hbase : ((b.baseEntries.lookup k).getD .null).DistinctKeys := by
        cases hbk : b.baseEntries.lookup k with
        | none => exact .scalar .null
        | some w => exact hb.of_lookup_baseEntries hbk
      have hbelow := h.below hu hv
      obtain ⟨e, he, -, rfl⟩ := Entries.mem_of_lookup hu
      obtain ⟨e', he', -, rfl⟩ := Entries.mem_of_lookup hv
      exact ⟨hbelow.isMapping, ih e he (hos' e' he') hbase
        ((distinctKeys_mapping.1 hd).2 e he) ((distinctKeys_mapping.1 hd').2 e' he') hbelow⟩

end Document

/-! ## What is read off nested mappings -/

theorem isRespelling_sameMappings : IsRespelling fun _ => Document.SameMappings := by
  intro x d d' h
  cases h with
  | refl d => exact ⟨rfl, .reordered (.refl (fun _ => .refl) x d.layer)⟩
  | mapping hperm hnames hvalues =>
    obtain ⟨hlength, hzip⟩ := List.forall₂_iff_zip.1 hnames
    exact ⟨rfl, .mapping ⟨_, hperm, List.forall₂_iff_zip.2
      ⟨hlength, fun hef => ⟨hzip hef, (List.forall₂_iff_zip.1 hvalues).2 hef⟩⟩⟩⟩

/-- Documents that are equal as nested mappings differ in order and spelling only. -/
theorem Document.SameMappings.akin {d d' : Document} (h : d.SameMappings d')
    (hd : d.DistinctKeys) (hd' : d'.DistinctKeys) (x : Position) : d.Akin x d' :=
  ⟨⟨_, isRespelling_sameMappings, h⟩, hd, hd'⟩

end AccessPolicy
