import AccessPolicy.Document.View
import Mathlib.Data.List.Forall2

/-!
# Walking along a web

The documents at the places of a web are found by a walk that follows members as far as they
go (`Web.visit`). Layers whose members are related one by one are `Shape.Matches`, and a walk
along a layer leads to a layer that matches it (`Shape.matches_mapM`).

`Web.matches_layer` : what holds of the document at a place whenever it holds of the documents
at the members of its cell, and of the document that contains itself, holds of all members of a
layer. The places that a walk may come to are closed under members
(`Web.mem_reach_of_mem_members`).
-/

namespace AccessPolicy

/-! ## Layers -/

/-- The layers differ in their members only, which are related one by one. -/
inductive Shape.Matches {α β : Type} (R : α → β → Prop) : Shape α → Shape β → Prop
  | scalar (s : Scalar) : Matches R (.scalar s) (.scalar s)
  | sequence {as : List α} {bs : List β} : List.Forall₂ R as bs →
      Matches R (.sequence as) (.sequence bs)
  | tuple {as : List α} {bs : List β} : List.Forall₂ R as bs → Matches R (.tuple as) (.tuple bs)
  | mapping {es : List (Key × α)} {fs : List (Key × β)} :
      List.Forall₂ (fun e f => e.1 = f.1 ∧ R e.2 f.2) es fs → Matches R (.mapping es) (.mapping fs)
  | set (ks : List Key) : Matches R (.set ks) (.set ks)

theorem exists_of_mem_forall₂ {α β : Type} {R : α → β → Prop} {as : List α} {bs : List β}
    (h : List.Forall₂ R as bs) : ∀ b ∈ bs, ∃ a ∈ as, R a b := by
  induction h with
  | nil => simp
  | cons hab _ ih =>
    intro b hb
    rcases List.mem_cons.1 hb with rfl | hb
    · exact ⟨_, List.mem_cons_self, hab⟩
    · obtain ⟨a, ha, hr⟩ := ih b hb
      exact ⟨a, List.mem_cons_of_mem _ ha, hr⟩

theorem map_fst_of_forall₂ {α β : Type} {R : α → β → Prop} {es : List (Key × α)}
    {fs : List (Key × β)} (h : List.Forall₂ (fun e f => e.1 = f.1 ∧ R e.2 f.2) es fs) :
    fs.map (·.1) = es.map (·.1) := by
  induction h with
  | nil => rfl
  | cons hef _ ih => rw [List.map_cons, List.map_cons, hef.1, ih]

namespace Shape.Matches

variable {α β γ : Type} {R : α → β → Prop} {s : Shape α} {t : Shape β}

theorem keys_eq (h : s.Matches R t) : t.keys = s.keys := by
  cases h with
  | scalar s => rfl
  | sequence h => rfl
  | tuple h => rfl
  | mapping h => exact map_fst_of_forall₂ h
  | set ks => rfl

theorem exists_member (h : s.Matches R t) : ∀ b ∈ t.members, ∃ a ∈ s.members, R a b := by
  cases h with
  | scalar s => simp [members]
  | sequence h => exact exists_of_mem_forall₂ h
  | tuple h => exact exists_of_mem_forall₂ h
  | mapping h =>
    intro b hb
    obtain ⟨f, hf, rfl⟩ := List.mem_map.1 hb
    obtain ⟨e, he, -, hr⟩ := exists_of_mem_forall₂ h f hf
    exact ⟨e.2, List.mem_map_of_mem he, hr⟩
  | set ks => simp [members]

theorem imp {R' : α → β → Prop} (h : s.Matches R t) (himp : ∀ a b, R a b → R' a b) :
    s.Matches R' t := by
  cases h with
  | scalar s => exact .scalar s
  | sequence h => exact .sequence (h.imp himp)
  | tuple h => exact .tuple (h.imp himp)
  | mapping h => exact .mapping (h.imp fun _ _ hef => ⟨hef.1, himp _ _ hef.2⟩)
  | set ks => exact .set ks

theorem of_map_right {f : γ → β} {t : Shape γ} (h : s.Matches R (t.map f)) :
    s.Matches (fun a c => R a (f c)) t := by
  cases t with
  | scalar c =>
    cases h
    exact .scalar c
  | sequence items =>
    cases h with
    | sequence h => exact .sequence (List.forall₂_map_right_iff.1 h)
  | tuple items =>
    cases h with
    | tuple h => exact .tuple (List.forall₂_map_right_iff.1 h)
  | mapping es =>
    cases h with
    | mapping h => exact .mapping (List.forall₂_map_right_iff.1 h)
  | set ks =>
    cases h
    exact .set ks

end Shape.Matches

section Traversal

variable {σ α β : Type} {f : α → StateM σ β} {I : σ → Prop} {R : α → β → Prop}

/-- A walk along a list, each step of which keeps the invariant, keeps it, and pairs every
member with a result of its step. -/
theorem mapM_run_invariant {γ δ : Type} {g : γ → StateM σ δ} {R : γ → δ → Prop}
    (step : ∀ a s, I s → I (g a s).2 ∧ R a (g a s).1) :
    ∀ (l : List γ) (s : σ), I s →
      I (l.mapM g s).2 ∧ List.Forall₂ R l (l.mapM g s).1
  | [], s, hs => by
    rw [List.mapM_nil]
    exact ⟨hs, List.Forall₂.nil⟩
  | a :: l, s, hs => by
    obtain ⟨h₁, hr⟩ := step a s hs
    obtain ⟨h₂, hl⟩ := mapM_run_invariant step l _ h₁
    rw [List.mapM_cons]
    exact ⟨h₂, List.Forall₂.cons hr hl⟩

/-- The same for a layer. -/
theorem Shape.matches_mapM (step : ∀ a s, I s → I (f a s).2 ∧ R a (f a s).1) (shape : Shape α)
    (s : σ) (hs : I s) : I (shape.mapM f s).2 ∧ shape.Matches R (shape.mapM f s).1 := by
  cases shape with
  | scalar c => exact ⟨hs, .scalar c⟩
  | sequence items =>
    obtain ⟨h₁, h₂⟩ := mapM_run_invariant step items s hs
    exact ⟨h₁, .sequence h₂⟩
  | tuple items =>
    obtain ⟨h₁, h₂⟩ := mapM_run_invariant step items s hs
    exact ⟨h₁, .tuple h₂⟩
  | mapping es =>
    obtain ⟨h₁, h₂⟩ := mapM_run_invariant
      (g := fun e : Key × α => do return (e.1, ← f e.2))
      (R := fun e r => e.1 = r.1 ∧ R e.2 r.2)
      (fun e s hs => ⟨(step e.2 s hs).1, rfl, (step e.2 s hs).2⟩) es s hs
    exact ⟨h₁, .mapping h₂⟩
  | set ks => exact ⟨hs, .set ks⟩

end Traversal

/-! ## Members that are there -/

theorem eq_map_some_of_mapM {γ δ : Type} {g : γ → Option δ} {back : δ → γ}
    (step : ∀ a b, g a = some b → a = back b) :
    ∀ {l : List γ} {r : List δ}, l.mapM g = some r → l = r.map back
  | [], r, h => by
    obtain rfl : [] = r := by simpa using h
    rfl
  | a :: l, r, h => by
    rw [List.mapM_cons] at h
    simp only [Option.bind_eq_bind, Option.bind_eq_some_iff, Option.pure_def,
      Option.some.injEq] at h
    obtain ⟨b, hb, bs, hbs, rfl⟩ := h
    rw [List.map_cons, ← eq_map_some_of_mapM step hbs, step a b hb]

/-- A layer all of whose members are there is the layer of those members. -/
theorem Shape.eq_map_some_of_mapM_id {α : Type} {m : Shape (Option α)} {s : Shape α}
    (h : m.mapM id = some s) : m = s.map some := by
  cases m with
  | scalar c =>
    obtain rfl : Shape.scalar c = s := by simpa [Shape.mapM] using h
    rfl
  | set ks =>
    obtain rfl : Shape.set ks = s := by simpa [Shape.mapM] using h
    rfl
  | sequence items =>
    simp only [Shape.mapM, Option.bind_eq_bind, Option.bind_eq_some_iff, Option.pure_def,
      Option.some.injEq] at h
    obtain ⟨ds, hds, rfl⟩ := h
    rw [Shape.map, ← eq_map_some_of_mapM (fun _ _ h => h) hds]
  | tuple items =>
    simp only [Shape.mapM, Option.bind_eq_bind, Option.bind_eq_some_iff, Option.pure_def,
      Option.some.injEq] at h
    obtain ⟨ds, hds, rfl⟩ := h
    rw [Shape.map, ← eq_map_some_of_mapM (fun _ _ h => h) hds]
  | mapping es =>
    simp only [Shape.mapM, Option.bind_eq_bind, Option.bind_eq_some_iff, Option.pure_def,
      Option.some.injEq] at h
    obtain ⟨ds, hds, rfl⟩ := h
    have back : ∀ (e : Key × Option α) (r : Key × α),
        (do return (e.1, ← e.2) : Option (Key × α)) = some r → e = (r.1, some r.2) := by
      rintro ⟨k, v⟩ r h
      simp only [Option.bind_eq_bind, Option.bind_eq_some_iff, Option.pure_def,
        Option.some.injEq] at h
      obtain ⟨b, rfl, rfl⟩ := h
      rfl
    rw [Shape.map, ← eq_map_some_of_mapM back hds]

/-! ## Visits -/

namespace Web

variable {w : Web} {Q : Nat → Document → Prop}

/-- Every tree that was found is as it should be at its place. -/
def Found (Q : Nat → Document → Prop) (found : Array Finding) : Prop :=
  ∀ (i : Nat) (d : Document), found[i]? = some (.finite d) → Q i d

theorem found_nothingFound (w : Web) (Q : Nat → Document → Prop) : Found Q w.nothingFound := by
  intro i d h
  simp [nothingFound, Array.getElem?_replicate] at h

theorem Found.setIfInBounds {found : Array Finding} (h : Found Q found) (place : Nat)
    {x : Finding} (hx : ∀ d, x = .finite d → Q place d) :
    Found Q (found.setIfInBounds place x) := by
  intro i d hd
  rw [Array.getElem?_setIfInBounds] at hd
  split at hd
  · next hi =>
    subst hi
    split at hd
    · exact hx d (Option.some.inj hd)
    · cases hd
  · exact h i d hd

theorem visit_of_finite (fuel : Nat) {place : Nat} {found : Array Finding} {d : Document}
    (h : found[place]? = some (.finite d)) :
    w.visit (fuel + 1) place found = (some d, found) := by
  simp only [visit, bind, StateT.bind, get, getThe, MonadStateOf.get, StateT.get, pure]
  rw [h]
  rfl

theorem visit_of_unknown (fuel : Nat) {place : Nat} {found : Array Finding}
    (h : found[place]? = some .unknown) :
    w.visit (fuel + 1) place found =
      (let r := (w.cell place).mapM (w.visit fuel) (found.setIfInBounds place .followed)
      let d := (r.1.mapM id).map Document.ofLayer
      (d, r.2.setIfInBounds place (d.elim .endless .finite))) := by
  simp only [visit, bind, StateT.bind, get, getThe, MonadStateOf.get, StateT.get, pure]
  rw [h]
  rfl

theorem visit_of_stopped (fuel : Nat) {place : Nat} {found : Array Finding}
    (h : found[place]? = none ∨ found[place]? = some .followed ∨
      found[place]? = some .endless) :
    w.visit (fuel + 1) place found = (none, found) := by
  simp only [visit, bind, StateT.bind, get, getThe, MonadStateOf.get, StateT.get, pure]
  rcases h with h | h | h <;> rw [h] <;> rfl

/-- The fuel bounds the induction : a place is visited with the documents of its members
found one step deeper. -/
theorem found_visit (hQ : ∀ place s, (w.cell place).Matches Q s → Q place (.ofLayer s)) :
    ∀ (fuel place : Nat) (found : Array Finding), Found Q found →
      Found Q (w.visit fuel place found).2 ∧ ∀ d, (w.visit fuel place found).1 = some d → Q place d
  | 0, _, found, h => ⟨h, fun d hd => by cases hd⟩
  | fuel + 1, place, found, h => by
    have stopped : Found Q found ∧ ∀ d : Document, none = some d → Q place d :=
      ⟨h, fun d hd => by cases hd⟩
    cases hp : found[place]? with
    | none =>
      rw [visit_of_stopped fuel (.inl hp)]
      exact stopped
    | some finding =>
      cases finding with
      | followed =>
        rw [visit_of_stopped fuel (.inr (.inl hp))]
        exact stopped
      | endless =>
        rw [visit_of_stopped fuel (.inr (.inr hp))]
        exact stopped
      | finite d =>
        rw [visit_of_finite fuel hp]
        exact ⟨h, fun d' hd' => Option.some.inj hd' ▸ h place d hp⟩
      | unknown =>
        rw [visit_of_unknown fuel hp]
        obtain ⟨hs, hm⟩ := Shape.matches_mapM (f := w.visit fuel) (I := Found Q)
          (R := fun p r => ∀ d, r = some d → Q p d) (found_visit hQ fuel)
          (w.cell place) _ (h.setIfInBounds place (x := .followed) fun d hd => by cases hd)
        generalize (w.cell place).mapM (w.visit fuel) (found.setIfInBounds place .followed) = r
          at hs hm
        have tree : ∀ d, (r.1.mapM id).map Document.ofLayer = some d → Q place d := by
          intro d hd
          obtain ⟨s, hs, rfl⟩ := Option.map_eq_some_iff.1 hd
          rw [Shape.eq_map_some_of_mapM_id hs] at hm
          exact hQ place s (hm.of_map_right.imp fun _ _ h => h _ rfl)
        refine ⟨hs.setIfInBounds place fun d hd => ?_, tree⟩
        cases hv : (r.1.mapM id).map Document.ofLayer with
        | none =>
          rw [hv] at hd
          cases hd
        | some d' =>
          rw [hv] at hd
          cases hd
          exact tree d hv

theorem found_member (hQ : ∀ place s, (w.cell place).Matches Q s → Q place (.ofLayer s))
    (hcyclic : ∀ place, Q place (.cyclic w place)) (place : Nat) (found : Array Finding)
    (h : Found Q found) :
    Found Q (w.member place found).2 ∧ Q place (w.member place found).1 := by
  obtain ⟨hs, hd⟩ := found_visit hQ (w.cells.size + 1) place found h
  refine ⟨hs, ?_⟩
  show Q place ((w.visit (w.cells.size + 1) place found).1.getD (.cyclic w place))
  cases hv : (w.visit (w.cells.size + 1) place found).1 with
  | none => exact hcyclic place
  | some d => exact hd d hv

/-- The members in a layer of the web are as the documents at their places should be. -/
theorem matches_layer (hQ : ∀ place s, (w.cell place).Matches Q s → Q place (.ofLayer s))
    (hcyclic : ∀ place, Q place (.cyclic w place)) (place : Nat) :
    (w.cell place).Matches Q (w.layer place) :=
  (Shape.matches_mapM (found_member hQ hcyclic) (w.cell place) _ (found_nothingFound w Q)).2

/-! ## Places that can be reached -/

/-- How many members the cell at a place has, unless the place was seen. -/
def cost (w : Web) (seen : List Nat) (place : Nat) : Nat :=
  if seen.contains place then 0 else (w.cell place).members.length

theorem cost_of_mem {seen : List Nat} {place : Nat} (h : place ∈ seen) :
    w.cost seen place = 0 :=
  if_pos (List.contains_iff_mem.2 h)

theorem cost_of_not_mem {seen : List Nat} {place : Nat} (h : place ∉ seen) :
    w.cost seen place = (w.cell place).members.length :=
  if_neg fun hseen => h (List.contains_iff_mem.1 hseen)

/-- How many members the cells at these places have, apart from the places that were seen. -/
def pending (w : Web) (seen : List Nat) : (places : List Nat) → Nat
  | [] => 0
  | p :: places => w.cost seen p + w.pending seen places

theorem cost_cons_le (seen : List Nat) (place p : Nat) :
    w.cost (place :: seen) p ≤ w.cost seen p := by
  by_cases hp : p ∈ place :: seen
  · rw [cost_of_mem hp]
    exact Nat.zero_le _
  · have hold : w.cost seen p = (w.cell p).members.length :=
      cost_of_not_mem fun h => hp (List.mem_cons_of_mem _ h)
    exact Nat.le_of_eq ((cost_of_not_mem hp).trans hold.symm)

theorem pending_cons_le (seen : List Nat) (place : Nat) : ∀ places : List Nat,
    w.pending (place :: seen) places ≤ w.pending seen places
  | [] => Nat.le_refl _
  | p :: places => Nat.add_le_add (w.cost_cons_le seen place p) (pending_cons_le seen place places)

/-- Seeing a place takes its members off. -/
theorem pending_cons {seen : List Nat} {place : Nat} (hnew : place ∉ seen) :
    ∀ {places : List Nat}, place ∈ places →
      (w.cell place).members.length + w.pending (place :: seen) places ≤ w.pending seen places
  | p :: places, hmem => by
    have hfirst := w.cost_cons_le seen place p
    have hrest := w.pending_cons_le seen place places
    rw [pending, pending]
    by_cases hp : p = place
    · subst hp
      rw [cost_of_mem List.mem_cons_self, cost_of_not_mem hnew]
      omega
    · have hlater := pending_cons hnew ((List.mem_cons.1 hmem).resolve_left (Ne.symm hp))
      omega

theorem members_eq_nil {place : Nat} (h : w.cells.size ≤ place) :
    (w.cell place).members = [] := by
  rw [cell, Array.getElem?_eq_none h]
  rfl

/-- The places of the web. -/
def places (w : Web) : List Nat :=
  List.range w.cells.size

theorem foldl_members (w : Web) : ∀ (places : List Nat) (n : Nat),
    (places.map w.cell).foldl (fun n c => n + c.members.length) n = n + w.pending [] places
  | [], _ => rfl
  | p :: places, n => by
    rw [List.map_cons, List.foldl_cons, foldl_members w places, pending,
      cost_of_not_mem List.not_mem_nil, Nat.add_assoc]

theorem pending_le_span (w : Web) : w.pending [] w.places ≤ w.span := by
  have hcells : w.places.map w.cell = w.cells.toList := by
    refine List.ext_getElem (by simp [places]) fun i hi hi' => ?_
    simp [places, cell, Array.getElem?_eq_getElem (by simpa using hi')]
  rw [span, ← Array.foldl_toList, ← hcells, foldl_members]
  exact Nat.le_add_left _ _

/-- Visiting a place that was not seen pays for its members. -/
theorem pending_visit {seen : List Nat} {place : Nat} (hnew : place ∉ seen) :
    (w.cell place).members.length + w.pending (place :: seen) w.places ≤
      w.pending seen w.places := by
  rcases Nat.lt_or_ge place w.cells.size with hlt | hge
  · exact pending_cons hnew (List.mem_range.2 hlt)
  · rw [members_eq_nil hge, List.length_nil, Nat.zero_add]
    exact pending_cons_le seen place w.places

/-- All places that may come after the places of the list are among these. -/
def Closed (w : Web) (places : List Nat) (among : Nat → Prop) : Prop :=
  ∀ p ∈ places, ∀ m ∈ (w.cell p).members, among m

section Visit

variable {seen todo : List Nat} {place p : Nat}

theorem mem_or_of_seen (hseen : place ∈ seen) (h : p ∈ seen ∨ p ∈ place :: todo) :
    p ∈ seen ∨ p ∈ todo := by
  rw [List.mem_cons] at h
  rcases h with h | rfl | h
  · exact .inl h
  · exact .inl hseen
  · exact .inr h

theorem mem_or_of_visit (members : List Nat) (h : p ∈ seen ∨ p ∈ place :: todo) :
    p ∈ place :: seen ∨ p ∈ members ++ todo := by
  rw [List.mem_cons] at h ⊢
  rw [List.mem_append]
  rcases h with h | h | h
  · exact .inl (.inr h)
  · exact .inl (.inl h)
  · exact .inr (.inr h)

end Visit

/-- With enough fuel for the places to be visited and the members of those not seen, a walk
ends with nothing to be visited : what it has seen is closed under members. -/
theorem closed_reachFrom : ∀ {fuel : Nat} {seen todo : List Nat},
    todo.length + w.pending seen w.places ≤ fuel →
      w.Closed seen (fun m => m ∈ seen ∨ m ∈ todo) →
      (∀ p, p ∈ seen ∨ p ∈ todo → p ∈ w.reachFrom fuel seen todo) ∧
        w.Closed (w.reachFrom fuel seen todo) (· ∈ w.reachFrom fuel seen todo)
  | 0, seen, todo, hfuel, hclosed => by
    obtain rfl : todo = [] := List.length_eq_zero_iff.1 (by omega)
    rw [reachFrom]
    exact ⟨by simp, by simpa using hclosed⟩
  | fuel + 1, seen, [], _, hclosed => by
    rw [reachFrom]
    exact ⟨by simp, by simpa using hclosed⟩
  | fuel + 1, seen, place :: todo, hfuel, hclosed => by
    rw [List.length_cons] at hfuel
    rw [reachFrom]
    by_cases hseen : place ∈ seen
    · rw [if_pos (List.contains_iff_mem.2 hseen)]
      have henough : todo.length + w.pending seen w.places ≤ fuel := by omega
      obtain ⟨hsub, hclosed'⟩ := closed_reachFrom henough fun p hp m hm =>
        mem_or_of_seen hseen (hclosed p hp m hm)
      exact ⟨fun p hp => hsub p (mem_or_of_seen hseen hp), hclosed'⟩
    · rw [if_neg fun h => hseen (List.contains_iff_mem.1 h)]
      have hvisit := w.pending_visit hseen
      have henough : ((w.cell place).members ++ todo).length +
          w.pending (place :: seen) w.places ≤ fuel := by
        rw [List.length_append]
        omega
      obtain ⟨hsub, hclosed'⟩ := closed_reachFrom henough fun p hp m hm => by
        rcases List.mem_cons.1 hp with rfl | hp
        · exact .inr (List.mem_append_left _ hm)
        · exact mem_or_of_visit _ (hclosed p hp m hm)
      exact ⟨fun p hp => hsub p (mem_or_of_visit _ hp), hclosed'⟩

theorem closed_reach (w : Web) (place : Nat) :
    place ∈ w.reach place ∧ w.Closed (w.reach place) (· ∈ w.reach place) := by
  have hfuel : [place].length + w.pending [] w.places ≤ w.span + 1 := by
    have := w.pending_le_span
    rw [List.length_singleton]
    omega
  obtain ⟨hsub, hclosed⟩ := closed_reachFrom hfuel fun p hp => by simp at hp
  exact ⟨hsub place (.inr (by simp)), hclosed⟩

/-- A walk stays among places that are closed under members. -/
theorem reachFrom_among {among : Nat → Prop}
    (hclosed : ∀ p, among p → ∀ m ∈ (w.cell p).members, among m) :
    ∀ {fuel : Nat} {seen todo : List Nat}, (∀ p, p ∈ seen ∨ p ∈ todo → among p) →
      ∀ p ∈ w.reachFrom fuel seen todo, among p
  | 0, seen, todo, h, p, hp => h p (.inl hp)
  | _ + 1, seen, [], h, p, hp => h p (.inl hp)
  | fuel + 1, seen, place :: todo, h, p, hp => by
    rw [reachFrom] at hp
    split at hp
    · refine reachFrom_among hclosed (fun q hq => h q ?_) p hp
      exact hq.imp_right (List.mem_cons_of_mem _)
    · refine reachFrom_among hclosed (fun q hq => ?_) p hp
      have hplace : among place := h place (.inr List.mem_cons_self)
      rw [List.mem_cons, List.mem_append] at hq
      rcases hq with (rfl | hq) | hq | hq
      · exact hplace
      · exact h q (.inl hq)
      · exact hclosed place hplace q hq
      · exact h q (.inr (List.mem_cons_of_mem _ hq))

/-- What can be reached from a place that can be reached can be reached. -/
theorem reach_subset {place p : Nat} (hp : p ∈ w.reach place) : w.reach p ⊆ w.reach place :=
  fun _ hq => reachFrom_among (closed_reach w place).2
    (fun q hq => by
      rcases hq with hq | hq
      · simp at hq
      · exact List.mem_singleton.1 hq ▸ hp) _ hq

end Web

end AccessPolicy
