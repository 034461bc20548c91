import AccessPolicy.Proofs.Document.Reordered

/-!
# Documents that differ in order and spelling

A mapping finds the same entry under `1`, `1.0` and `true`, so the same mapping may be written
with other keys. Two documents are the same up to spelling if they are the same up to order but
for keys that name the same entry (`Document.SameUpToSpelling`). This is again the greatest
relation that holds of two documents only if it holds of their members.

What a policy reads off a document does not tell such documents apart : both are the same
scalar or neither is one (`SameUpToSpelling.scalar_iff`), and what a key finds in the one is
related to what it finds in the other (`Entries.Akin.lookup`).

`Document.Akin.merge` : what merging makes of such documents is the same up to spelling again,
if no key is there twice.
-/

namespace AccessPolicy

/-! ## Keys -/

/-- The keys are one key, or two that name the same entry. A not-a-number names no entry, not
even its own. -/
def Key.Names (k k' : Key) : Prop :=
  k = k' ∨ k.same k' = true

namespace Key.Names

variable {k k' : Key}

theorem refl (k : Key) : Names k k := .inl rfl

theorem symm (h : Names k k') : Names k' k := by
  rcases h with rfl | h
  · exact .refl k
  · exact .inr (Key.same_comm k k' ▸ h)

/-- Such keys are found by the same keys. -/
theorem same_eq (h : Names k k') (c : Key) : c.same k = c.same k' := by
  rcases h with rfl | h
  · rfl
  · rw [Key.same_comm c, Key.same_comm c, Key.same_congr h]

theorem eq_text {s : Text} (h : Names (.text s) k) : k = .text s := by
  rcases h with rfl | h
  · rfl
  · exact Key.eq_text_of_same h

theorem lookup_eq (h : Names k k') (es : Entries) : es.lookup k = es.lookup k' := by
  rcases h with rfl | h
  · rfl
  · exact Entries.lookup_congr h es

theorem isNamed_eq (h : Names k k') (names : List Text) : k.isNamed names = k'.isNamed names := by
  rcases h with rfl | h
  · rfl
  · exact Key.isNamed_congr h names

theorem below_eq (h : Names k k') (x : Position) : x.below k = x.below k' := by
  rcases h with rfl | h
  · rfl
  · exact x.below_congr h

end Key.Names

/-! ## Entries in any order and spelling -/

/-- The entries are paired one by one with related entries of keys that name the same, in any
order. -/
def Entries.Paired (R : Key → Document → Document → Prop) (es fs : Entries) : Prop :=
  ∃ gs, es.Perm gs ∧ List.Forall₂ (fun e f => e.1.Names f.1 ∧ R e.1 e.2 f.2) gs fs

namespace Entries

variable {R R' : Key → Document → Document → Prop} {es fs es' fs' : Entries}

theorem Matched.paired (h : Matched R es fs) : Paired R es fs := by
  obtain ⟨gs, hperm, hall⟩ := h
  exact ⟨gs, hperm, hall.imp fun _ _ hef => ⟨.inl hef.1, hef.2⟩⟩

namespace Paired

theorem imp (h : Paired R es fs) (himp : ∀ k v v', R k v v' → R' k v v') : Paired R' es fs := by
  obtain ⟨gs, hperm, hall⟩ := h
  exact ⟨gs, hperm, hall.imp fun _ _ hef => ⟨hef.1, himp _ _ _ hef.2⟩⟩

theorem symm (h : Paired R es fs) (hR : ∀ {k k' v v'}, k.Names k' → R k v v' → R k' v v') :
    Paired (fun k v v' => R k v' v) fs es := by
  obtain ⟨gs, hperm, hall⟩ := h
  obtain ⟨hs, hall', hperm'⟩ := List.perm_comp_forall₂ hperm hall
  exact ⟨hs, hperm'.symm, (List.Forall₂.flip hall').imp fun _ _ hef =>
    ⟨hef.1.symm, hR hef.1 hef.2⟩⟩

theorem exists_left (h : Paired R es fs) :
    ∀ f ∈ fs, ∃ e ∈ es, e.1.Names f.1 ∧ R e.1 e.2 f.2 := by
  obtain ⟨gs, hperm, hall⟩ := h
  intro f hf
  obtain ⟨e, he, hef⟩ := exists_of_mem_forall₂ hall f hf
  exact ⟨e, hperm.mem_iff.2 he, hef⟩

theorem isEmpty_eq (h : Paired R es fs) : es.isEmpty = fs.isEmpty := by
  obtain ⟨gs, hperm, hall⟩ := h
  have hlength := hperm.length_eq.trans hall.length_eq
  cases es <;> cases fs <;> simp_all

/-- The order of either side does not matter. -/
theorem of_perm (h : Paired R es fs) (hes : es'.Perm es) (hfs : fs.Perm fs') :
    Paired R es' fs' := by
  obtain ⟨gs, hperm, hall⟩ := h
  obtain ⟨hs, hall', hperm'⟩ := List.perm_comp_forall₂ hfs.symm hall.flip
  exact ⟨hs, hes.trans (hperm.trans hperm'.symm), hall'.flip⟩

theorem append (h : Paired R es fs) (h' : Paired R es' fs') :
    Paired R (es ++ es') (fs ++ fs') := by
  obtain ⟨gs, hperm, hall⟩ := h
  obtain ⟨gs', hperm', hall'⟩ := h'
  exact ⟨gs ++ gs', hperm.append hperm', List.rel_append hall hall'⟩

/-- Keeping the entries with certain keys. -/
theorem filter (h : Paired R es fs) {p q : Key → Bool} (hpq : ∀ {k k'}, k.Names k' → p k = q k') :
    Paired R (es.filter fun e => p e.1) (fs.filter fun f => q f.1) := by
  obtain ⟨gs, hperm, hall⟩ := h
  refine ⟨_, hperm.filter _, List.rel_filter (fun {e f} hef => ?_) hall⟩
  show p e.1 = true ↔ q f.1 = true
  rw [hpq hef.1]

/-- Replacing the value of each entry. -/
theorem map (h : Paired R es fs) {v w : Key → Document → Document}
    (hvw : ∀ {k k' b b'}, k.Names k' → R k b b' → R' k (v k b) (w k' b')) :
    Paired R' (es.map fun e => (e.1, v e.1 e.2)) (fs.map fun f => (f.1, w f.1 f.2)) := by
  obtain ⟨gs, hperm, hall⟩ := h
  refine ⟨_, hperm.map _, List.forall₂_map_left_iff.2 (List.forall₂_map_right_iff.2 ?_)⟩
  exact hall.imp fun e f hef => ⟨hef.1, hvw hef.1 hef.2⟩

/-- Entries whose keys are texts are paired under the same keys. -/
theorem matched (h : Paired R es fs) (htexts : ∀ e ∈ es, ∃ s, e.1 = .text s) :
    Matched R es fs := by
  obtain ⟨gs, hperm, hall⟩ := h
  refine ⟨gs, hperm, List.forall₂_iff_zip.2 ⟨hall.length_eq, fun {e f} hef => ?_⟩⟩
  obtain ⟨hnames, hr⟩ := (List.forall₂_iff_zip.1 hall).2 hef
  obtain ⟨s, hs⟩ := htexts e (hperm.mem_iff.2 (List.of_mem_zip hef).1)
  rw [hs] at hnames
  exact ⟨hs.trans hnames.eq_text.symm, hr⟩

theorem lookup_forall₂ (hR : ∀ {k k' v v'}, k.same k' = true → R k' v v' → R k v v') (k : Key)
    (hall : List.Forall₂ (fun e f => e.1.Names f.1 ∧ R e.1 e.2 f.2) es fs) :
    Option.Rel (R k) (es.lookup k) (fs.lookup k) := by
  induction hall with
  | nil => exact .none
  | @cons e f es fs hef _ ih =>
    rw [Entries.lookup, Entries.lookup, hef.1.same_eq k]
    split
    · next hk => exact .some (hR (hef.1.same_eq k ▸ hk) hef.2)
    · exact ih

/-- What is found under a key in paired entries is related. -/
theorem lookup (h : Paired R es fs)
    (hR : ∀ {k k' v v'}, k.same k' = true → R k' v v' → R k v v') (apart : Key.Apart es.keys)
    (k : Key) : Option.Rel (R k) (es.lookup k) (fs.lookup k) := by
  obtain ⟨gs, hperm, hall⟩ := h
  rw [lookup_perm k hperm apart]
  exact lookup_forall₂ (R := R) hR k hall

/-- What holds of all values holds of those that are paired. -/
theorem and {P : Document → Prop} (h : Paired R es fs) (hes : ∀ e ∈ es, P e.2)
    (hfs : ∀ f ∈ fs, P f.2) : Paired (fun k v v' => (P v ∧ P v') ∧ R k v v') es fs := by
  obtain ⟨gs, hperm, hall⟩ := h
  refine ⟨gs, hperm, List.forall₂_iff_zip.2 ⟨hall.length_eq, fun {e f} hef => ?_⟩⟩
  obtain ⟨hnames, hr⟩ := (List.forall₂_iff_zip.1 hall).2 hef
  obtain ⟨he, hf⟩ := List.of_mem_zip hef
  exact ⟨hnames, ⟨hes e (hperm.mem_iff.2 he), hfs f hf⟩, hr⟩

end Paired

end Entries

/-! ## Sameness up to spelling -/

/-- The layers are the same up to the order of their members, or mappings of which the entries
are paired. -/
inductive Shape.Respelled (R : Position → Document → Document → Prop) (x : Position) :
    Shape Document → Shape Document → Prop
  | reordered {s t : Shape Document} : Reordered R x s t → Respelled R x s t
  | mapping {es fs : Entries} : Entries.Paired (fun k => R (x.below k)) es fs →
      Respelled R x (.mapping es) (.mapping fs)

/-- The relation holds of two documents only if their layers have the same form with related
members, under keys that name the same. -/
def IsRespelling (R : Position → Document → Document → Prop) : Prop :=
  ∀ x d d', R x d d' → d.isCyclic = d'.isCyclic ∧ Shape.Respelled R x d.layer d'.layer

/-- Two documents that stand at this position differ in order and in the spelling of keys
only. -/
def Document.SameUpToSpelling (x : Position) (d d' : Document) : Prop :=
  ∃ R, IsRespelling R ∧ R x d d'

namespace Shape.Respelled

variable {R R' : Position → Document → Document → Prop} {x : Position} {s t : Shape Document}

theorem imp (h : Respelled R x s t) (himp : ∀ x d d', R x d d' → R' x d d') :
    Respelled R' x s t := by
  cases h with
  | reordered h => exact .reordered (h.imp himp)
  | mapping h => exact .mapping (h.imp fun k => himp (x.below k))

theorem symm (h : Respelled R x s t) : Respelled (fun x d d' => R x d' d) x t s := by
  cases h with
  | reordered h => exact .reordered h.symm
  | mapping h => exact .mapping (h.symm fun hk hr => hk.below_eq x ▸ hr)

theorem eq_scalar {c : Scalar} (h : Respelled R x (.scalar c) t) : t = .scalar c := by
  cases h with
  | reordered h =>
    cases h
    rfl

theorem exists_mapping {es : Entries} (h : Respelled R x (.mapping es) t) :
    ∃ fs, t = .mapping fs ∧ Entries.Paired (fun k => R (x.below k)) es fs := by
  cases h with
  | reordered h =>
    cases h with
    | mapping h => exact ⟨_, rfl, h.paired⟩
  | mapping h => exact ⟨_, rfl, h⟩

end Shape.Respelled

namespace Document.SameUpToSpelling

variable {x : Position} {d d' : Document} {es : Entries}

/-- The layers of documents that differ in order and spelling only. -/
theorem layer (h : SameUpToSpelling x d d') :
    d.isCyclic = d'.isCyclic ∧ Shape.Respelled SameUpToSpelling x d.layer d'.layer := by
  obtain ⟨R, hR, hr⟩ := h
  obtain ⟨hcyclic, hlayer⟩ := hR x d d' hr
  exact ⟨hcyclic, hlayer.imp fun _ _ _ hr => ⟨R, hR, hr⟩⟩

theorem symm (h : SameUpToSpelling x d d') : SameUpToSpelling x d' d := by
  obtain ⟨R, hR, hr⟩ := h
  refine ⟨fun x d d' => R x d' d, fun x d d' hr => ?_, hr⟩
  obtain ⟨hcyclic, hlayer⟩ := hR x d' d hr
  exact ⟨hcyclic.symm, hlayer.symm⟩

/-- Documents that differ in order only. -/
theorem of_order (h : SameUpToOrder x d d') : SameUpToSpelling x d d' :=
  ⟨SameUpToOrder, fun _ _ _ h => ⟨h.layer.1, .reordered h.layer.2⟩, h⟩

/-! ### Views -/

theorem eq_scalar {c : Scalar} (h : SameUpToSpelling x (.scalar c) d') : d' = .scalar c := by
  obtain ⟨hcyclic, hlayer⟩ := h.layer
  have hscalar : d'.layer = .scalar c := hlayer.eq_scalar
  cases d' with
  | cyclic w place => cases hcyclic
  | scalar c' =>
    cases hscalar
    rfl
  | sequence | tuple | mapping | set => cases hscalar

theorem scalar_iff (h : SameUpToSpelling x d d') {c : Scalar} : d = .scalar c ↔ d' = .scalar c :=
  ⟨fun hd => (hd ▸ h).eq_scalar, fun hd => (hd ▸ h.symm).eq_scalar⟩

theorem exists_entries? (h : SameUpToSpelling x d d') (hes : d.entries? = some es) :
    ∃ fs, d'.entries? = some fs ∧
      Entries.Paired (fun k => SameUpToSpelling (x.below k)) es fs := by
  have hl := h.layer.2
  unfold entries? at hes ⊢
  split at hes
  · next es' hlayer =>
    cases hes
    rw [hlayer] at hl
    obtain ⟨fs, hfs, hpaired⟩ := hl.exists_mapping
    exact ⟨fs, by rw [hfs], hpaired⟩
  · cases hes

theorem exists_mapping (h : SameUpToSpelling x (.mapping es) d') :
    ∃ fs, d' = .mapping fs ∧
      Entries.Paired (fun k => SameUpToSpelling (x.below k)) es fs := by
  obtain ⟨fs, hfs, hpaired⟩ := h.exists_entries? rfl
  cases d' with
  | mapping fs' =>
    cases hfs
    exact ⟨_, rfl, hpaired⟩
  | cyclic w place => cases h.layer.1
  | scalar | sequence | tuple | set => cases hfs

theorem isMapping_eq (h : SameUpToSpelling x d d') : d.isMapping = d'.isMapping := by
  have himp : ∀ {d d' : Document}, SameUpToSpelling x d d' → d.isMapping = true →
      d'.isMapping = true := by
    intro d d' h hd
    obtain ⟨es, hes⟩ := isMapping_iff.1 hd
    obtain ⟨fs, hfs, -⟩ := h.exists_entries? hes
    exact isMapping_iff.2 ⟨fs, hfs⟩
  rw [Bool.eq_iff_iff]
  exact ⟨himp h, himp h.symm⟩

theorem paired_entries (h : SameUpToSpelling x d d') :
    Entries.Paired (fun k => SameUpToSpelling (x.below k)) d.entries d'.entries := by
  cases hes : d.entries? with
  | some es =>
    obtain ⟨fs, hfs, hm⟩ := h.exists_entries? hes
    simpa [entries, hes, hfs] using hm
  | none =>
    have hfs : d'.entries? = none := by
      have heq := h.isMapping_eq
      rw [isMapping, isMapping, hes] at heq
      exact Option.not_isSome_iff_eq_none.1 (by simp [← heq])
    simp only [entries, hes, hfs, Option.getD_none]
    exact ⟨[], .refl _, .nil⟩

theorem isGiven_eq (h : SameUpToSpelling x d d') : d.isGiven = d'.isGiven := by
  have hl := h.layer.2
  unfold isGiven
  generalize d.layer = s at hl
  generalize d'.layer = t at hl
  cases hl with
  | mapping h => simp only [h.isEmpty_eq]
  | reordered h =>
    cases h with
    | scalar s => rfl
    | sequence h => cases h <;> rfl
    | @operations as bs hx h h' =>
      cases as with
      | nil =>
        cases bs with
        | nil => rfl
        | cons b bs => simpa using h' b List.mem_cons_self
      | cons a as =>
        obtain ⟨b, hb, -⟩ := h a List.mem_cons_self
        cases bs with
        | nil => cases hb
        | cons b bs => rfl
    | tuple h => cases h <;> rfl
    | mapping h => simp only [h.paired.isEmpty_eq]
    | set h => simp only [h.isEmpty_eq]

/-- The items of related lists of operations are related, in any order and number. -/
theorem exists_items? (h : SameUpToSpelling .operations d d') {items : List Document}
    (hitems : d.items? = some items) : ∃ items', d'.items? = some items' ∧
      (∀ a ∈ items, ∃ b ∈ items', SameUpToSpelling .elsewhere a b) ∧
      ∀ b ∈ items', ∃ a ∈ items, SameUpToSpelling .elsewhere a b := by
  have hl := h.layer.2
  unfold items? at hitems ⊢
  generalize d.layer = s at hl hitems
  generalize d'.layer = t at hl
  cases hl with
  | mapping => cases hitems
  | reordered hl =>
    cases hl with
    | sequence hall =>
      obtain rfl := Option.some.inj hitems
      refine ⟨_, rfl, fun a ha => ?_, exists_of_mem_forall₂ hall⟩
      obtain ⟨b, hb, hr⟩ := exists_of_mem_forall₂ hall.flip a ha
      exact ⟨b, hb, hr⟩
    | operations _ h h' =>
      obtain rfl := Option.some.inj hitems
      exact ⟨_, rfl, h, h'⟩
    | scalar | tuple | mapping | set => cases hitems

end Document.SameUpToSpelling

open Document (SameUpToSpelling)

/-! ## Without a key twice -/

/-- Documents without a key twice that differ in order and spelling only. -/
structure Document.Akin (x : Position) (d d' : Document) : Prop where
  same : SameUpToSpelling x d d'
  left : d.DistinctKeys
  right : d'.DistinctKeys

/-- Entries of such mappings. -/
structure Entries.Akin (x : Position) (es fs : Entries) : Prop where
  paired : Paired (fun k => SameUpToSpelling (x.below k)) es fs
  left : (Document.mapping es).DistinctKeys
  right : (Document.mapping fs).DistinctKeys

namespace Document.Akin

variable {x : Position} {d d' : Document} {es : Entries}

theorem symm (h : Akin x d d') : Akin x d' d :=
  ⟨h.same.symm, h.right, h.left⟩

theorem entries (h : Akin x d d') : Entries.Akin x d.entries d'.entries :=
  ⟨h.same.paired_entries, distinctKeys_mapping.2 h.left.entries,
    distinctKeys_mapping.2 h.right.entries⟩

theorem exists_entries? (h : Akin x d d') (hes : d.entries? = some es) :
    ∃ fs, d'.entries? = some fs ∧ Entries.Akin x es fs := by
  obtain ⟨fs, hfs, hpaired⟩ := h.same.exists_entries? hes
  exact ⟨fs, hfs, hpaired, distinctKeys_mapping.2 (h.left.entries? hes),
    distinctKeys_mapping.2 (h.right.entries? hfs)⟩

end Document.Akin

namespace Entries.Akin

variable {x : Position} {es fs : Entries}

theorem apart (h : Akin x es fs) : Key.Apart es.keys :=
  (Document.distinctKeys_mapping.1 h.left).1

/-- The values are akin one by one. -/
theorem members (h : Akin x es fs) : Paired (fun k v v' => v.Akin (x.below k) v') es fs := by
  have hall := h.paired.and (Document.distinctKeys_mapping.1 h.left).2
    (Document.distinctKeys_mapping.1 h.right).2
  exact hall.imp fun _ _ _ hv => ⟨hv.2, hv.1.1, hv.1.2⟩

theorem lookup (h : Akin x es fs) (k : Key) :
    Option.Rel (Document.Akin (x.below k)) (es.lookup k) (fs.lookup k) :=
  h.members.lookup (fun hk hv => x.below_congr hk ▸ hv) h.apart k

theorem get? (h : Akin x es fs) (name : Text) :
    Option.Rel (Document.Akin (x.below (.text name))) (es.get? name) (fs.get? name) :=
  h.lookup (.text name)

theorem getD (h : Akin x es fs) (name : Text) :
    (es.getD name).Akin (x.below (.text name)) (fs.getD name) := by
  have hrel := h.get? name
  unfold Entries.getD
  generalize es.get? name = v at hrel
  generalize fs.get? name = v' at hrel
  cases hrel with
  | none => exact ⟨.of_order (.refl _ _), .scalar .null, .scalar .null⟩
  | some hv => exact hv

theorem has_eq (h : Akin x es fs) (k : Key) : es.has k = fs.has k := by
  have hrel := h.lookup k
  unfold Entries.has
  generalize es.lookup k = v at hrel
  generalize fs.lookup k = v' at hrel
  cases hrel with
  | none => rfl
  | some _ => rfl

/-- What holds of all entries holds of those that are akin. -/
theorem forall_entries (h : Akin x es fs) {p : Key → Document → Prop}
    (hp : ∀ {k k' v v'}, k.Names k' → v.Akin (x.below k) v' → p k v → p k' v')
    (hes : ∀ e ∈ es, p e.1 e.2) : ∀ f ∈ fs, p f.1 f.2 := by
  intro f hf
  obtain ⟨e, he, hkey, hv⟩ := h.members.exists_left f hf
  exact hp hkey hv (hes e he)

end Entries.Akin

/-! ## Merging -/

/-- Documents that differ in order and spelling only, or what comes of merging such
documents. -/
inductive MergedAkin (x : Position) (d d' : Document) : Prop
  | same : SameUpToSpelling x d d' → MergedAkin x d d'
  | merged {b b' o o' : Document} : b.Akin x b' → o.Akin x o' → d = b.merge o →
      d' = b'.merge o' → MergedAkin x d d'

namespace MergedAkin

variable {x : Position}

theorem laidOver {b b' : Document} {v v' : Option Document} (hb : b.Akin x b')
    (hv : Option.Rel (Document.Akin x) v v') :
    MergedAkin x (Entries.laidOver b v) (Entries.laidOver b' v') := by
  cases hv with
  | none => exact .same hb.same
  | @some v v' hv =>
    rw [Entries.laidOver, Entries.laidOver, hb.same.isMapping_eq, hv.same.isMapping_eq]
    split
    · exact .merged hb hv rfl rfl
    · exact .same hv.same

theorem paired {bs bs' os os' : Entries} (hb : Entries.Akin x bs bs')
    (ho : Entries.Akin x os os') : Entries.Paired (fun k => MergedAkin (x.below k))
      (Entries.overlaid os bs ++ Entries.added bs os)
      (Entries.overlaid os' bs' ++ Entries.added bs' os') := by
  refine .append ?_ ?_
  · rw [Entries.overlaid_eq_map, Entries.overlaid_eq_map]
    refine hb.members.map (v := fun k b => Entries.laidOver b (os.lookup k))
      (w := fun k b => Entries.laidOver b (os'.lookup k)) fun {k k' b b'} hnames hv => ?_
    rw [← hnames.lookup_eq os']
    exact .laidOver hv (ho.lookup k)
  · have hold : Entries.Paired (fun k => MergedAkin (x.below k)) os os' :=
      ho.paired.imp fun _ _ _ h => .same h
    refine hold.filter (p := fun k => !Entries.has k bs) (q := fun k => !Entries.has k bs')
      fun {k k'} hnames => ?_
    rw [hb.has_eq k, Entries.has, Entries.has, hnames.lookup_eq bs']

end MergedAkin

theorem isRespelling_mergedAkin : IsRespelling MergedAkin := by
  have hsame : ∀ {x d d'}, SameUpToSpelling x d d' →
      d.isCyclic = d'.isCyclic ∧ Shape.Respelled MergedAkin x d.layer d'.layer := fun h =>
    ⟨h.layer.1, h.layer.2.imp fun _ _ _ h => .same h⟩
  intro x d d' h
  cases h with
  | same h => exact hsame h
  | @merged b b' o o' hb ho hd hd' =>
    subst hd hd'
    by_cases hnull : o = .null
    · obtain rfl := hnull
      obtain rfl := ho.same.eq_scalar
      rw [Document.merge_null, Document.merge_null]
      exact hsame hb.same
    have hnull' : o' ≠ .null := fun h => hnull (ho.same.scalar_iff.2 h)
    by_cases hmapping : (∃ bs, b = .mapping bs) ∧ o.isMapping = true
    · -- two mappings meet on both sides
      obtain ⟨⟨bs, rfl⟩, hom⟩ := hmapping
      obtain ⟨os, hos⟩ := Option.isSome_iff_exists.1 hom
      obtain ⟨os', hos', hoo⟩ := ho.exists_entries? hos
      obtain ⟨bs', rfl, hbb⟩ := hb.same.exists_mapping
      rw [Document.merge_mapping hos, Document.merge_mapping hos']
      exact ⟨rfl, .mapping (MergedAkin.paired ⟨hbb, hb.left, hb.right⟩ hoo)⟩
    · -- the override replaces the base on both sides
      have hmapping' : ¬((∃ bs, b' = .mapping bs) ∧ o'.isMapping = true) := by
        rintro ⟨⟨bs, rfl⟩, hom⟩
        obtain ⟨bs', rfl, -⟩ := hb.same.symm.exists_mapping
        exact hmapping ⟨⟨bs', rfl⟩, ho.same.isMapping_eq ▸ hom⟩
      rw [Document.merge_of_replaced hnull hmapping, Document.merge_of_replaced hnull' hmapping']
      exact hsame ho.same

/-- Merging documents that differ in order and spelling only makes documents that do. -/
theorem Document.Akin.merge {x : Position} {b b' o o' : Document} (hb : b.Akin x b')
    (ho : o.Akin x o') : (b.merge o).Akin x (b'.merge o') :=
  ⟨⟨MergedAkin, isRespelling_mergedAkin, .merged hb ho rfl rfl⟩, hb.left.merge ho.left,
    hb.right.merge ho.right⟩

end AccessPolicy
