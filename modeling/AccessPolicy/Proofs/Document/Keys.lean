import AccessPolicy.Document.Merge
import AccessPolicy.Proofs.Document.Walk

/-!
# Documents without repeated keys

A mapping as it is built by assignments names every entry once : no two of its keys are the
same (`Key.Apart`). `Document.DistinctKeys` says this of every mapping in a document, and of
every cell of the web where the document contains itself.

The views of such a document are such documents again (`DistinctKeys.layer`,
`DistinctKeys.entries`), and so is what merging makes of two of them (`DistinctKeys.merge`).
-/

namespace AccessPolicy

/-! ## Sameness of keys -/

theorem Scalar.isNaN_iff_sense (a : Scalar) :
    a.isNaN = true ↔ ∃ x, a.sense = .float x ∧ x.isNaN = true := by
  constructor
  · intro h
    cases a <;> simp only [Scalar.isNaN, Bool.false_eq_true] at h
    rename_i x
    have hx : x.integer? = none := by
      have : (x.exponentBits == 0x7FF) = true := by
        simp only [Binary64.isNaN, Bool.and_eq_true] at h
        exact h.1
      simp [Binary64.integer?, this]
    exact ⟨x, by simp [Scalar.sense, hx], h⟩
  · rintro ⟨x, hs, hx⟩
    cases a <;> simp only [Scalar.sense, reduceCtorEq] at hs
    case float y =>
      split at hs
      · cases hs
      · cases hs
        exact hx
    case moment m =>
      split at hs <;> cases hs

theorem Scalar.same_comm (a b : Scalar) : a.same b = b.same a := by
  unfold Scalar.same
  by_cases h : a.sense = b.sense
  · have hn : a.isNaN = b.isNaN := by
      rw [Bool.eq_iff_iff, Scalar.isNaN_iff_sense, Scalar.isNaN_iff_sense, h]
    simp [h, hn]
  · simp [h, Ne.symm h]

mutual

theorem Key.same_comm : ∀ a b : Key, a.same b = b.same a
  | .scalar a, .scalar b => by rw [Key.same, Key.same, Scalar.same_comm]
  | .tuple as, .tuple bs => by rw [Key.same, Key.same, Key.sameAll_comm as bs]
  | .scalar _, .tuple _ => by simp [Key.same]
  | .tuple _, .scalar _ => by simp [Key.same]

theorem Key.sameAll_comm : ∀ as bs : List Key, Key.sameAll as bs = Key.sameAll bs as
  | [], [] => rfl
  | [], _ :: _ => by simp [Key.sameAll]
  | _ :: _, [] => by simp [Key.sameAll]
  | a :: as, b :: bs => by
    rw [Key.sameAll, Key.sameAll, Key.same_comm a b, Key.sameAll_comm as bs]

end

theorem Scalar.same_congr {a b : Scalar} (h : a.same b = true) (c : Scalar) :
    a.same c = b.same c := by
  simp only [Scalar.same, Bool.and_eq_true, Bool.not_eq_true', decide_eq_true_eq] at h
  obtain ⟨hnan, hsense⟩ := h
  have hn : b.isNaN = a.isNaN := by
    rw [Bool.eq_iff_iff, Scalar.isNaN_iff_sense, Scalar.isNaN_iff_sense, hsense]
  rw [Scalar.same, Scalar.same, hn, hsense]

mutual

theorem Key.same_congr : ∀ {a b : Key}, a.same b = true → ∀ c, a.same c = b.same c
  | .scalar a, .scalar b, h, .scalar c => by
    rw [Key.same] at h
    rw [Key.same, Key.same, Scalar.same_congr h]
  | .scalar _, .scalar _, _, .tuple _ => by simp [Key.same]
  | .tuple _, .tuple _, _, .scalar _ => by simp [Key.same]
  | .tuple as, .tuple bs, h, .tuple cs => by
    rw [Key.same] at h
    rw [Key.same, Key.same, Key.sameAll_congr h]
  | .scalar _, .tuple _, h, _ => by simp [Key.same] at h
  | .tuple _, .scalar _, h, _ => by simp [Key.same] at h

theorem Key.sameAll_congr : ∀ {as bs : List Key}, Key.sameAll as bs = true →
    ∀ cs, Key.sameAll as cs = Key.sameAll bs cs
  | [], [], _, _ => rfl
  | [], _ :: _, h, _ => by simp [Key.sameAll] at h
  | _ :: _, [], h, _ => by simp [Key.sameAll] at h
  | _ :: _, _ :: _, _, [] => by simp [Key.sameAll]
  | a :: as, b :: bs, h, c :: cs => by
    rw [Key.sameAll, Bool.and_eq_true] at h
    rw [Key.sameAll, Key.sameAll, Key.same_congr h.1 c, Key.sameAll_congr h.2 cs]

end

/-- Texts name the same entry only if they are equal. -/
theorem Key.same_text (s t : Text) : (Key.text s).same (.text t) = decide (s = t) := by
  simp [Key.same, Scalar.same, Scalar.isNaN, Scalar.sense]

/-! ## Keys that are apart -/

/-- No two of the keys name the same entry. -/
def Key.Apart (ks : List Key) : Prop :=
  ks.Pairwise fun a b => a.same b = false

instance (ks : List Key) : Decidable (Key.Apart ks) :=
  inferInstanceAs (Decidable (ks.Pairwise fun a b => a.same b = false))

/-- The keys of the layer are apart, if it is a mapping. -/
def Shape.KeysApart {α : Type} : Shape α → Prop
  | .mapping es => Key.Apart (es.map (·.1))
  | _ => True

/-- The keys of every mapping of the web are apart. -/
def Web.KeysApart (w : Web) : Prop :=
  ∀ place, (w.cell place).KeysApart

/-- No mapping of the document names an entry twice. -/
inductive Document.DistinctKeys : Document → Prop
  | scalar (s : Scalar) : DistinctKeys (.scalar s)
  | sequence {items : List Document} (h : ∀ d ∈ items, DistinctKeys d) :
      DistinctKeys (.sequence items)
  | tuple {items : List Document} (h : ∀ d ∈ items, DistinctKeys d) :
      DistinctKeys (.tuple items)
  | mapping {es : Entries} (apart : Key.Apart es.keys) (h : ∀ e ∈ es, DistinctKeys e.2) :
      DistinctKeys (.mapping es)
  | set (ks : List Key) : DistinctKeys (.set ks)
  | cyclic {w : Web} (apart : w.KeysApart) (place : Nat) : DistinctKeys (.cyclic w place)

/-- The layer is a mapping whose keys are apart or no mapping, and its members have distinct
keys. -/
def Shape.DistinctKeys (s : Shape Document) : Prop :=
  s.KeysApart ∧ ∀ d ∈ s.members, d.DistinctKeys

theorem Document.distinctKeys_mapping {es : Entries} :
    (Document.mapping es).DistinctKeys ↔ Key.Apart es.keys ∧ ∀ e ∈ es, e.2.DistinctKeys :=
  ⟨fun | .mapping apart h => ⟨apart, h⟩, fun h => .mapping h.1 h.2⟩

/-- The document with a layer has distinct keys if the layer has. -/
theorem Shape.DistinctKeys.ofLayer {s : Shape Document} (h : s.DistinctKeys) :
    (Document.ofLayer s).DistinctKeys := by
  cases s with
  | scalar s => exact .scalar s
  | sequence items => exact .sequence h.2
  | tuple items => exact .tuple h.2
  | mapping es =>
    exact .mapping h.1 fun e he => h.2 e.2 (List.mem_map_of_mem he)
  | set ks => exact .set ks

theorem Shape.Matches.keysApart {α β : Type} {R : α → β → Prop} {s : Shape α} {t : Shape β}
    (h : s.Matches R t) (hs : s.KeysApart) : t.KeysApart := by
  cases h with
  | mapping h =>
    show Key.Apart _
    rw [map_fst_of_forall₂ h]
    exact hs
  | scalar | sequence | tuple | set => exact hs

/-! ## Documents of a web -/

/-- A layer that was read off a web whose mappings have keys apart has distinct keys. -/
theorem Shape.Matches.distinctKeys {s : Shape Nat} {t : Shape Document}
    (h : s.Matches (fun _ d => d.DistinctKeys) t) (hs : s.KeysApart) : t.DistinctKeys := by
  refine ⟨h.keysApart hs, fun d hd => ?_⟩
  obtain ⟨-, -, hmember⟩ := h.exists_member d hd
  exact hmember

/-- The layer at a place of a web whose mappings have keys apart has distinct keys. -/
theorem Web.distinctKeys_layer {w : Web} (hw : w.KeysApart) (place : Nat) :
    (w.layer place).DistinctKeys :=
  (matches_layer (Q := fun _ d => d.DistinctKeys)
    (fun place _ h => (h.distinctKeys (hw place)).ofLayer) (.cyclic hw) place).distinctKeys
    (hw place)

/-! ## Views -/

namespace Document.DistinctKeys

variable {d : Document}

theorem layer (h : d.DistinctKeys) : d.layer.DistinctKeys := by
  cases h with
  | scalar s => exact ⟨trivial, by simp [Document.layer, Shape.members]⟩
  | sequence h => exact ⟨trivial, h⟩
  | tuple h => exact ⟨trivial, h⟩
  | mapping apart h =>
    refine ⟨apart, fun c hc => ?_⟩
    obtain ⟨e, he, rfl⟩ := List.mem_map.1 hc
    exact h e he
  | set ks => exact ⟨trivial, by simp [Document.layer, Shape.members]⟩
  | cyclic apart place => exact Web.distinctKeys_layer apart place

theorem entries? (h : d.DistinctKeys) {es : Entries} (he : d.entries? = some es) :
    Key.Apart es.keys ∧ ∀ e ∈ es, e.2.DistinctKeys := by
  have hl := h.layer
  unfold Document.entries? at he
  split at he
  · next es' hes =>
    cases he
    rw [hes] at hl
    exact ⟨hl.1, fun e he => hl.2 e.2 (List.mem_map_of_mem he)⟩
  · cases he

theorem entries (h : d.DistinctKeys) :
    Key.Apart d.entries.keys ∧ ∀ e ∈ d.entries, e.2.DistinctKeys := by
  unfold Document.entries
  cases he : d.entries? with
  | none => exact ⟨List.Pairwise.nil, by simp⟩
  | some es => exact h.entries? he

end Document.DistinctKeys

/-! ## Entries -/

namespace Entries

theorem mem_of_lookup {k : Key} {v : Document} : ∀ {es : Entries}, lookup k es = some v →
    ∃ e ∈ es, k.same e.1 = true ∧ e.2 = v
  | [], h => by cases h
  | (k', v') :: es, h => by
    rw [lookup] at h
    split at h
    · next hk => exact ⟨(k', v'), List.mem_cons_self, hk, Option.some.inj h⟩
    · obtain ⟨e, he, hs⟩ := mem_of_lookup h
      exact ⟨e, List.mem_cons_of_mem _ he, hs⟩

theorem same_eq_false_of_lookup {k : Key} : ∀ {es : Entries}, lookup k es = none →
    ∀ e ∈ es, k.same e.1 = false
  | [], _, e, he => by cases he
  | (k', v') :: es, h, e, he => by
    rw [lookup] at h
    split at h
    · cases h
    · next hk =>
      rcases List.mem_cons.1 he with rfl | he
      · exact Bool.eq_false_iff.2 hk
      · exact same_eq_false_of_lookup h e he

theorem distinctKeys_getD {es : Entries} (h : ∀ e ∈ es, e.2.DistinctKeys) (name : Text) :
    (es.getD name).DistinctKeys := by
  unfold getD get?
  cases hl : lookup (.text name) es with
  | none => exact .scalar .null
  | some v =>
    obtain ⟨e, he, -, rfl⟩ := mem_of_lookup hl
    exact h e he

theorem keys_overlaid (os : Entries) : ∀ bs : Entries, keys (overlaid os bs) = bs.keys
  | [] => by simp [overlaid, keys]
  | (k, b) :: bs => by
    rw [overlaid]
    exact congrArg (k :: ·) (keys_overlaid os bs)

/-- The keys of the base, and then those of the override that the base has not. -/
theorem apart_overlaid_added {bs os : Entries} (hb : Key.Apart bs.keys)
    (ho : Key.Apart os.keys) : Key.Apart (keys (overlaid os bs ++ added bs os)) := by
  have hadded : (added bs os).keys.Sublist os.keys := List.filter_sublist.map _
  rw [Key.Apart, keys, List.map_append, List.pairwise_append]
  refine ⟨?_, List.Pairwise.sublist hadded ho, fun a ha b hb' => ?_⟩
  · show Key.Apart (keys (overlaid os bs))
    rw [keys_overlaid]
    exact hb
  · obtain ⟨o, ho', rfl⟩ := List.mem_map.1 hb'
    have ha : a ∈ bs.keys := keys_overlaid os bs ▸ ha
    obtain ⟨e, he, rfl⟩ := List.mem_map.1 ha
    have hnot : lookup o.1 bs = none := by
      have := (List.mem_filter.1 ho').2
      simpa [has] using this
    rw [Key.same_comm]
    exact same_eq_false_of_lookup hnot e he

end Entries

/-! ## Merging -/

mutual

theorem Document.DistinctKeys.merge : ∀ {base override : Document}, base.DistinctKeys →
    override.DistinctKeys → (Document.merge base override).DistinctKeys
  | base, override, hb, ho => by
    unfold Document.merge
    split
    · exact hb
    · next bs override _ =>
      split
      · next os hos =>
        obtain ⟨apart, values⟩ := Document.distinctKeys_mapping.1 hb
        obtain ⟨apart', values'⟩ := ho.entries? hos
        refine .mapping (Entries.apart_overlaid_added apart apart') fun e he => ?_
        rcases List.mem_append.1 he with he | he
        · exact Entries.distinctKeys_overlaid values' values e he
        · exact values' e (List.mem_filter.1 he).1
      · exact ho
    · exact ho

theorem Entries.distinctKeys_overlaid {os : Entries} (ho : ∀ e ∈ os, e.2.DistinctKeys) :
    ∀ {bs : Entries}, (∀ e ∈ bs, e.2.DistinctKeys) →
      ∀ e ∈ Entries.overlaid os bs, e.2.DistinctKeys
  | [], _, e, he => by simp [Entries.overlaid] at he
  | (k, b) :: bs, hb, e, he => by
    rw [Entries.overlaid, List.mem_cons] at he
    rcases he with rfl | he
    · have hb₀ : b.DistinctKeys := hb (k, b) List.mem_cons_self
      show Document.DistinctKeys _
      dsimp only
      split
      · exact hb₀
      · next v hv =>
        obtain ⟨o, ho', -, rfl⟩ := Entries.mem_of_lookup hv
        split
        · exact Document.DistinctKeys.merge hb₀ (ho o ho')
        · exact ho o ho'
    · exact Entries.distinctKeys_overlaid ho
        (fun e he => hb e (List.mem_cons_of_mem _ he)) e he

end

end AccessPolicy
