import AccessPolicy.Policy.Vocabulary
import AccessPolicy.Proofs.Document.Overlay
import Mathlib.Data.List.Perm.Basic

/-!
# Documents that differ in order

Two policy documents are the same up to order if they differ in the order of the entries of
mappings and sets, at any depth, and in the order or number of the names in lists of operations
(`Document.SameUpToOrder`). Where a list of operations stands is told by the way to it
(`Position`). Documents may contain themselves, so this is the greatest relation that holds
of two documents only if it holds of their members : it is shown by any relation that does
(`IsReordering`).
-/

namespace AccessPolicy

/-! ## Keys -/

theorem Scalar.eq_text_of_sense {c : Scalar} {s : Text} (h : c.sense = .text s) :
    c = .text s := by
  cases c with
  | text t => rw [Sense.text.inj h]
  | float x =>
    simp only [sense] at h
    split at h
    · cases h
    · cases h
  | moment m =>
    simp only [sense] at h
    split at h
    · cases h
    · cases h
  | null | bool | int | bytes | date => cases h

theorem Key.eq_text_of_same {s : Text} {k : Key} (h : (Key.text s).same k = true) :
    k = .text s := by
  cases k with
  | scalar c =>
    simp only [Key.same, Scalar.same, Bool.and_eq_true, decide_eq_true_eq] at h
    rw [Scalar.eq_text_of_sense h.2.symm]
  | tuple ks => simp [Key.same] at h

/-- Keys that are the same are the same names. -/
theorem Key.isNamed_congr {k k' : Key} (h : k.same k' = true) (names : List Text) :
    k.isNamed names = k'.isNamed names := by
  by_cases hk : ∃ s, k = .text s
  · obtain ⟨s, rfl⟩ := hk
    rw [Key.eq_text_of_same h]
  · have hk' : ¬ ∃ s, k' = .text s := by
      rintro ⟨s, rfl⟩
      rw [Key.same_comm] at h
      exact hk ⟨s, Key.eq_text_of_same h⟩
    have hnone : ∀ {k : Key}, (¬ ∃ s, k = .text s) → k.isNamed names = false := by
      intro k hk
      unfold Key.isNamed
      split
      · next s => exact absurd ⟨s, rfl⟩ hk
      · rfl
    rw [hnone hk, hnone hk']

/-! ## Positions -/

/-- Where a value stands in a policy. -/
inductive Position where
  | policy
  | limits
  | principals
  | operations
  | elsewhere

/-- Where the value of an entry stands. -/
def Position.below (x : Position) (key : Key) : Position :=
  match x with
  | .policy => if key.isNamed ["limits"] then .limits else .elsewhere
  | .limits =>
    if key.isNamed ["defaults"] then .operations
    else if key.isNamed (PrincipalClass.all.map PrincipalClass.name) then .principals
    else .elsewhere
  | .principals => .operations
  | .operations => .elsewhere
  | .elsewhere => .elsewhere

theorem Position.below_congr (x : Position) {k k' : Key} (h : k.same k' = true) :
    x.below k = x.below k' := by
  cases x <;> simp only [below, Key.isNamed_congr h]

/-! ## Entries in any order -/

/-- The entries are matched one by one with related entries of the same keys, in any order. -/
def Entries.Matched (R : Key → Document → Document → Prop) (es fs : Entries) : Prop :=
  ∃ gs, es.Perm gs ∧ List.Forall₂ (fun e f => e.1 = f.1 ∧ R e.1 e.2 f.2) gs fs

namespace Entries

variable {R R' : Key → Document → Document → Prop} {es fs : Entries}

theorem Matched.imp (h : Matched R es fs) (himp : ∀ k v v', R k v v' → R' k v v') :
    Matched R' es fs := by
  obtain ⟨gs, hperm, hall⟩ := h
  exact ⟨gs, hperm, hall.imp fun _ _ hef => ⟨hef.1, himp _ _ _ hef.2⟩⟩

theorem Matched.refl (hR : ∀ k v, R k v v) (es : Entries) : Matched R es es :=
  ⟨es, .refl es, List.forall₂_same.2 fun e _ => ⟨rfl, hR e.1 e.2⟩⟩

theorem Matched.symm (h : Matched R es fs) : Matched (fun k v v' => R k v' v) fs es := by
  obtain ⟨gs, hperm, hall⟩ := h
  obtain ⟨hs, hall', hperm'⟩ := List.perm_comp_forall₂ hperm hall
  refine ⟨hs, hperm'.symm, (List.Forall₂.flip hall').imp fun f e hef => ⟨hef.1.symm, ?_⟩⟩
  rw [← hef.1]
  exact hef.2

/-- Reading something off each entry. -/
theorem Matched.map_perm {α : Type} (h : Matched R es fs) {f g : Key × Document → α}
    (hfg : ∀ k v v', R k v v' → f (k, v) = g (k, v')) : (es.map f).Perm (fs.map g) := by
  obtain ⟨gs, hperm, hall⟩ := h
  have heq : gs.map f = fs.map g := by
    rw [← List.forall₂_eq_eq_eq, List.forall₂_map_left_iff, List.forall₂_map_right_iff]
    refine hall.imp fun e e' hee => ?_
    obtain ⟨k, v⟩ := e
    obtain ⟨k', v'⟩ := e'
    obtain ⟨rfl, hr⟩ := hee
    exact hfg k v v' hr
  exact heq ▸ hperm.map f

/-! ### Lookups -/

theorem apart_perm (hperm : es.Perm fs) (apart : Key.Apart es.keys) : Key.Apart fs.keys :=
  (hperm.map _).pairwise apart fun {a b} hab => Key.same_comm a b ▸ hab

theorem lookup_perm (k : Key) (hperm : es.Perm fs) (apart : Key.Apart es.keys) :
    lookup k es = lookup k fs := by
  induction hperm with
  | nil => rfl
  | cons e _ ih => rw [lookup, lookup, ih (List.Pairwise.of_cons apart)]
  | swap e f es =>
    simp only [lookup]
    split
    · next hf =>
      have hne : f.1.same e.1 = false := List.rel_of_pairwise_cons apart List.mem_cons_self
      rw [Key.same_congr hf, hne]
      simp
    · rfl
  | trans h₁ _ ih₁ ih₂ => exact (ih₁ apart).trans (ih₂ (apart_perm h₁ apart))

end Entries

/-! ## Sameness up to order -/

/-- The layers have the same form, with related members : those of a mapping or a set in any
order, those of a list of operations in any order and number. -/
inductive Shape.Reordered (R : Position → Document → Document → Prop) (x : Position) :
    Shape Document → Shape Document → Prop
  | scalar (s : Scalar) : Reordered R x (.scalar s) (.scalar s)
  | sequence {as bs : List Document} : List.Forall₂ (R .elsewhere) as bs →
      Reordered R x (.sequence as) (.sequence bs)
  | operations {as bs : List Document} (hx : x = .operations) :
      (∀ a ∈ as, ∃ b ∈ bs, R .elsewhere a b) → (∀ b ∈ bs, ∃ a ∈ as, R .elsewhere a b) →
      Reordered R x (.sequence as) (.sequence bs)
  | tuple {as bs : List Document} : List.Forall₂ (R .elsewhere) as bs →
      Reordered R x (.tuple as) (.tuple bs)
  | mapping {es fs : Entries} : Entries.Matched (fun k => R (x.below k)) es fs →
      Reordered R x (.mapping es) (.mapping fs)
  | set {ks ks' : List Key} : ks.Perm ks' → Reordered R x (.set ks) (.set ks')

/-- The document is a place of a web. -/
def Document.isCyclic : Document → Bool
  | .cyclic _ _ => true
  | _ => false

/-- The relation holds of two documents only if their layers have the same form with related
members. -/
def IsReordering (R : Position → Document → Document → Prop) : Prop :=
  ∀ x d d', R x d d' → d.isCyclic = d'.isCyclic ∧ Shape.Reordered R x d.layer d'.layer

/-- Two documents that stand at this position differ in order only. -/
def Document.SameUpToOrder (x : Position) (d d' : Document) : Prop :=
  ∃ R, IsReordering R ∧ R x d d'

namespace Shape.Reordered

variable {R R' : Position → Document → Document → Prop} {x : Position} {s t : Shape Document}

theorem imp (h : Reordered R x s t) (himp : ∀ x d d', R x d d' → R' x d d') :
    Reordered R' x s t := by
  cases h with
  | scalar s => exact .scalar s
  | sequence h => exact .sequence (h.imp (himp _))
  | operations hx h h' =>
    refine .operations hx (fun a ha => ?_) fun b hb => ?_
    · obtain ⟨b, hb, hr⟩ := h a ha
      exact ⟨b, hb, himp _ _ _ hr⟩
    · obtain ⟨a, ha, hr⟩ := h' b hb
      exact ⟨a, ha, himp _ _ _ hr⟩
  | tuple h => exact .tuple (h.imp (himp _))
  | mapping h => exact .mapping (h.imp fun k => himp (x.below k))
  | set h => exact .set h

theorem symm (h : Reordered R x s t) : Reordered (fun x d d' => R x d' d) x t s := by
  cases h with
  | scalar s => exact .scalar s
  | sequence h => exact .sequence h.flip
  | operations hx h h' => exact .operations hx h' h
  | tuple h => exact .tuple h.flip
  | mapping h => exact .mapping h.symm
  | set h => exact .set h.symm

theorem refl (hR : ∀ x d, R x d d) (x : Position) (s : Shape Document) : Reordered R x s s := by
  cases s with
  | scalar s => exact .scalar s
  | sequence items => exact .sequence (List.forall₂_same.2 fun d _ => hR _ d)
  | tuple items => exact .tuple (List.forall₂_same.2 fun d _ => hR _ d)
  | mapping es => exact .mapping (.refl (fun k => hR (x.below k)) es)
  | set ks => exact .set (.refl ks)

end Shape.Reordered

namespace Document.SameUpToOrder

variable {x : Position} {d d' : Document} {es : Entries}

/-- The layers of documents that differ in order only. -/
theorem layer (h : SameUpToOrder x d d') :
    d.isCyclic = d'.isCyclic ∧ Shape.Reordered SameUpToOrder x d.layer d'.layer := by
  obtain ⟨R, hR, hr⟩ := h
  obtain ⟨hcyclic, hlayer⟩ := hR x d d' hr
  exact ⟨hcyclic, hlayer.imp fun _ _ _ hr => ⟨R, hR, hr⟩⟩

theorem symm (h : SameUpToOrder x d d') : SameUpToOrder x d' d := by
  obtain ⟨R, hR, hr⟩ := h
  refine ⟨fun x d d' => R x d' d, fun x d d' hr => ?_, hr⟩
  obtain ⟨hcyclic, hlayer⟩ := hR x d' d hr
  exact ⟨hcyclic.symm, hlayer.symm⟩

theorem refl (x : Position) (d : Document) : SameUpToOrder x d d :=
  ⟨fun _ d d' => d = d', fun x d _ hr => hr ▸ ⟨rfl, .refl (fun _ _ => rfl) x d.layer⟩, rfl⟩

/-- Documents whose layers differ in order only differ in order only. -/
theorem of_layer (hcyclic : d.isCyclic = d'.isCyclic)
    (h : Shape.Reordered SameUpToOrder x d.layer d'.layer) : SameUpToOrder x d d' :=
  ⟨fun x d d' => d.isCyclic = d'.isCyclic ∧ Shape.Reordered SameUpToOrder x d.layer d'.layer,
    fun _ _ _ h => ⟨h.1, h.2.imp fun _ _ _ h => h.layer⟩, hcyclic, h⟩

theorem mapping {es fs : Entries}
    (h : Entries.Matched (fun k => SameUpToOrder (x.below k)) es fs) :
    SameUpToOrder x (.mapping es) (.mapping fs) :=
  of_layer rfl (.mapping h)

/-- Lists of the same names. -/
theorem texts {names names' : List Text} (h : ∀ name, name ∈ names ↔ name ∈ names') :
    SameUpToOrder .operations (.sequence (names.map .text)) (.sequence (names'.map .text)) := by
  refine of_layer rfl (.operations rfl (fun a ha => ?_) fun b hb => ?_)
  · obtain ⟨name, hname, rfl⟩ := List.mem_map.1 ha
    exact ⟨.text name, List.mem_map_of_mem ((h name).1 hname), refl _ _⟩
  · obtain ⟨name, hname, rfl⟩ := List.mem_map.1 hb
    exact ⟨.text name, List.mem_map_of_mem ((h name).2 hname), refl _ _⟩

end Document.SameUpToOrder

end AccessPolicy
