import AccessPolicy.Document.Text
import AccessPolicy.Proofs.Document.Keys

/-!
# Documents that can be shown

A document that holds no integer of too many digits can be shown (`Document.isShowable`). So
can whatever is seen of it layer by layer (`Document.showable_layer`), also where it contains
itself, and what merging makes of two such documents (`Document.isShowable_merge`).
-/

namespace AccessPolicy

/-! ## Layers -/

/-- The keys and the members of the layer can be shown. -/
def Shape.Showable (s : Shape Document) : Prop :=
  (∀ k ∈ s.keys, k.isShowable = true) ∧ ∀ d ∈ s.members, d.isShowable = true

/-- The keys and the values of the entries can be shown. -/
def Entries.Showable (es : Entries) : Prop :=
  ∀ e ∈ es, e.1.isShowable = true ∧ e.2.isShowable = true

theorem Key.areShowable_iff {ks : List Key} :
    Key.areShowable ks = true ↔ ∀ k ∈ ks, k.isShowable = true := by
  induction ks with
  | nil => simp [Key.areShowable]
  | cons k ks ih => simp [Key.areShowable, ih]

theorem Document.areShowable_iff {ds : List Document} :
    Document.areShowable ds = true ↔ ∀ d ∈ ds, d.isShowable = true := by
  induction ds with
  | nil => simp [Document.areShowable]
  | cons d ds ih => simp [Document.areShowable, ih]

theorem Document.entriesShowable_iff {es : Entries} :
    Document.entriesShowable es = true ↔ es.Showable := by
  induction es with
  | nil => simp [Document.entriesShowable, Entries.Showable]
  | cons e es ih =>
    rw [Document.entriesShowable, Bool.and_eq_true, Bool.and_eq_true, ih, Entries.Showable,
      Entries.Showable, List.forall_mem_cons]

theorem Document.isShowable_mapping {es : Entries} :
    (Document.mapping es).isShowable = true ↔ es.Showable :=
  Document.entriesShowable_iff

theorem Document.isShowable_ofLayer {s : Shape Document} :
    (Document.ofLayer s).isShowable = true ↔ s.Showable := by
  cases s with
  | scalar c =>
    simp [ofLayer, isShowable, Shape.Showable, Shape.keys, Shape.members, Key.isShowable]
  | sequence items =>
    simp [ofLayer, isShowable, Shape.Showable, Shape.keys, Shape.members, areShowable_iff]
  | tuple items =>
    simp [ofLayer, isShowable, Shape.Showable, Shape.keys, Shape.members, areShowable_iff]
  | mapping es =>
    rw [ofLayer, isShowable_mapping, Entries.Showable, Shape.Showable, Shape.keys, Shape.members,
      List.forall_mem_map, List.forall_mem_map]
    exact forall₂_and
  | set ks =>
    simp [ofLayer, isShowable, Shape.Showable, Shape.keys, Shape.members, Key.areShowable_iff]

/-! ## Webs -/

theorem Document.isShowable_cyclic {w : Web} {place : Nat} :
    (Document.cyclic w place).isShowable = true ↔
      ∀ p ∈ w.reach place, ∀ k ∈ (w.cell p).keys, k.isShowable = true := by
  rw [Document.isShowable, Key.areShowable_iff, Web.scalars, List.forall_mem_flatMap]

/-- The layer at a place can be shown with everything that can be reached from the place. -/
theorem Web.showable_layer {w : Web} {place : Nat}
    (h : ∀ p ∈ w.reach place, ∀ k ∈ (w.cell p).keys, k.isShowable = true) :
    (w.layer place).Showable := by
  have hlayer : ∀ {place : Nat} {s : Shape Document},
      (w.cell place).Matches (fun p d => (∀ q ∈ w.reach p, ∀ k ∈ (w.cell q).keys,
        k.isShowable = true) → d.isShowable = true) s →
      (∀ p ∈ w.reach place, ∀ k ∈ (w.cell p).keys, k.isShowable = true) → s.Showable := by
    intro place s hs hall
    obtain ⟨hself, hclosed⟩ := w.closed_reach place
    refine ⟨fun k hk => hall place hself k (hs.keys_eq ▸ hk), fun d hd => ?_⟩
    obtain ⟨p, hp, hshow⟩ := hs.exists_member d hd
    exact hshow fun q hq => hall q (w.reach_subset (hclosed place hself p hp) hq)
  exact hlayer (w.matches_layer (fun _ _ hs hall => Document.isShowable_ofLayer.2 (hlayer hs hall))
    (fun _ hall => Document.isShowable_cyclic.2 hall) place) h

/-! ## Views -/

namespace Document

variable {d : Document}

/-- What is seen of a document that can be shown can be shown. -/
theorem showable_layer (h : d.isShowable = true) : d.layer.Showable := by
  cases d with
  | cyclic w place => exact Web.showable_layer (isShowable_cyclic.1 h)
  | scalar s => exact isShowable_ofLayer.1 h
  | sequence items => exact isShowable_ofLayer.1 h
  | tuple items => exact isShowable_ofLayer.1 h
  | mapping es => exact isShowable_ofLayer.1 h
  | set ks => exact isShowable_ofLayer.1 h

theorem showable_of_entries? (h : d.isShowable = true) {es : Entries}
    (hes : d.entries? = some es) : es.Showable := by
  have hl := showable_layer h
  unfold entries? at hes
  split at hes
  · next es' hlayer =>
    cases hes
    rw [hlayer] at hl
    exact isShowable_mapping.1 (isShowable_ofLayer.2 hl)
  · cases hes

theorem showable_entries (h : d.isShowable = true) : d.entries.Showable := by
  unfold entries
  cases hes : d.entries? with
  | none => simp [Entries.Showable]
  | some es => exact showable_of_entries? h hes

theorem isShowable_of_items? (h : d.isShowable = true) {items : List Document}
    (hitems : d.items? = some items) : ∀ item ∈ items, item.isShowable = true := by
  have hl := showable_layer h
  unfold items? at hitems
  split at hitems
  · next items' hlayer =>
    cases hitems
    rw [hlayer] at hl
    exact hl.2
  · cases hitems

end Document

namespace Entries

variable {es : Entries}

theorem Showable.get? (h : es.Showable) {name : Text} {v : Document}
    (hv : es.get? name = some v) : v.isShowable = true := by
  obtain ⟨e, he, -, rfl⟩ := mem_of_lookup hv
  exact (h e he).2

theorem Showable.getD (h : es.Showable) (name : Text) : (es.getD name).isShowable = true := by
  unfold Entries.getD
  cases hv : es.get? name with
  | none => rfl
  | some v => exact h.get? hv

end Entries

/-! ## Merging -/

mutual

theorem Document.isShowable_merge : ∀ {base override : Document}, base.isShowable = true →
    override.isShowable = true → (Document.merge base override).isShowable = true
  | base, override, hb, ho => by
    unfold Document.merge
    split
    · exact hb
    · split
      · next os hos =>
        have hbs := Document.isShowable_mapping.1 hb
        have hoes := Document.showable_of_entries? ho hos
        refine Document.isShowable_mapping.2 fun e he => ?_
        rcases List.mem_append.1 he with he | he
        · exact Entries.showable_overlaid hoes hbs e he
        · exact hoes e (List.mem_filter.1 he).1
      · exact ho
    · exact ho

theorem Entries.showable_overlaid {os : Entries} (ho : os.Showable) :
    ∀ {bs : Entries}, bs.Showable → Entries.Showable (Entries.overlaid os bs)
  | [], _, e, he => by simp [Entries.overlaid] at he
  | (k, b) :: bs, hb, e, he => by
    obtain ⟨hk, hb₀⟩ := hb (k, b) List.mem_cons_self
    rw [Entries.overlaid, List.mem_cons] at he
    rcases he with rfl | he
    · refine ⟨hk, ?_⟩
      dsimp only
      split
      · exact hb₀
      · next v hv =>
        obtain ⟨o, ho', -, rfl⟩ := Entries.mem_of_lookup hv
        split
        · exact Document.isShowable_merge hb₀ (ho o ho').2
        · exact (ho o ho').2
    · exact Entries.showable_overlaid ho (fun e he => hb e (List.mem_cons_of_mem _ he)) e he

end

end AccessPolicy
