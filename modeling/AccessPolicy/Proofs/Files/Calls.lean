import AccessPolicy.Proofs.Files.Session

/-!
# The calls of an action

Which calls an action makes and where it stops. `Action.Stops` : the first call that the plan
refuses is the last one. `Action.Follows` : besides, the calls are those of a list in its order, up
to where the action fails. `Action.Unworded` : what it fails with is not worded for the caller.

A loop that fails does so at one of its members, after those before it (`Action.forEach_error`).
-/

namespace AccessPolicy.Action

open Session (Asks)

variable {α β : Type} {plan : FaultPlan} {s s' : Session}

/-- A loop that failed did so at one of its members, after those before it. -/
theorem forEach_error {f : α → Action Unit} {e : Failure} : ∀ {as : List α} {s s' : Session},
    forEach f as s = (.error e, s') → ∃ done a rest s₁,
      as = done ++ a :: rest ∧ forEach f done s = (.ok (), s₁) ∧ f a s₁ = (.error e, s')
  | [], _, _, h => absurd (pure_cases h).1 (by simp)
  | a :: as, s, s', h => by
    rcases bind_cases h with ⟨u, s₁, ha, hrest⟩ | ⟨x, ha, hx⟩
    · obtain ⟨done, a', rest, s₂, rfl, hdone, ha'⟩ := forEach_error hrest
      exact ⟨a :: done, a', rest, s₂, rfl, (bind_of_ok ha).trans hdone, ha'⟩
    · exact ⟨[], a, as, s, rfl, rfl, Except.error.inj hx ▸ ha⟩

/-! ## Where an action stops -/

/-- A run of the action fails at the first call that the plan refuses, which is its last. -/
def Stops (plan : FaultPlan) (x : Action α) : Prop :=
  ∀ s r s', x s = (r, s') → ∀ c n, s.calls.count c ≤ n → n < s'.calls.count c →
    (plan c n).isSome → (∃ e, r = .error e) ∧ s'.calls.getLast? = some c ∧
      s'.calls.count c = n + 1

theorem stops_of_asks_nil {x : Action α} (hx : Within (Asks []) x) : Stops plan x := by
  intro s r s' h c n hle hlt
  rw [calls_of_asks_nil (hx s r s' h)] at hlt
  omega

theorem stops_call (plan : FaultPlan) (c : Call) : Stops plan (call plan c) := by
  intro s r s' h c' n hle hlt hsome
  obtain ⟨rfl, hr⟩ := call_cases h
  rw [List.count_append, List.count_singleton] at hlt
  split_ifs at hlt with hc
  · obtain rfl : c = c' := by simpa using hc
    obtain rfl : n = s.calls.count c := by omega
    rcases hr with ⟨-, hnone⟩ | ⟨e, he, -⟩
    · rw [hnone] at hsome
      cases hsome
    · exact ⟨⟨e, he⟩, by simp, by simp⟩
  · omega

theorem stops_bind {x : Action α} {f : α → Action β} (hx : Stops plan x)
    (hf : ∀ a, Stops plan (f a)) : Stops plan (x >>= f) := by
  intro s r s' h c n hle hlt hsome
  rcases bind_cases h with ⟨a, s₁, ha, hfa⟩ | ⟨e, he, rfl⟩
  · refine hf a _ _ _ hfa c n (Nat.le_of_not_lt fun hn => ?_) hlt hsome
    obtain ⟨⟨e, he⟩, -⟩ := hx _ _ _ ha c n hle hn hsome
    cases he
  · exact ⟨⟨e, rfl⟩, (hx _ _ _ he c n hle hlt hsome).2⟩

theorem stops_forEach {f : α → Action Unit} (hf : ∀ a, Stops plan (f a)) :
    ∀ as : List α, Stops plan (forEach f as)
  | [] => stops_of_asks_nil ((isPreorder_asks []).within_pure ())
  | a :: as => stops_bind (hf a) fun _ => stops_forEach hf as

/-! ## The calls in their order -/

/-- The action makes these calls in their order, all of them where it succeeds, and it stops at
the first that the plan refuses. -/
structure Follows (plan : FaultPlan) (cs : List Call) (x : Action α) : Prop where
  stops : Stops plan x
  calls : ∀ s r s', x s = (r, s') → ∃ made, s'.calls = s.calls ++ made ∧ made <+: cs ∧
    ((∃ a, r = .ok a) → made = cs)

theorem follows_of_asks_nil {x : Action α} (hx : Within (Asks []) x) : Follows plan [] x where
  stops := stops_of_asks_nil hx
  calls s r s' h := ⟨[], by rw [calls_of_asks_nil (hx s r s' h), List.append_nil],
    List.prefix_refl _, fun _ => rfl⟩

theorem follows_call (plan : FaultPlan) (c : Call) : Follows plan [c] (call plan c) where
  stops := stops_call plan c
  calls s r s' h := by
    rw [(call_cases h).1]
    exact ⟨[c], rfl, List.prefix_refl _, fun _ => rfl⟩

theorem Follows.bind {cs ds : List Call} {x : Action α} {f : α → Action β}
    (hx : Follows plan cs x) (hf : ∀ a, Follows plan ds (f a)) :
    Follows plan (cs ++ ds) (x >>= f) where
  stops := stops_bind hx.stops fun a => (hf a).stops
  calls s r s' h := by
    rcases bind_cases h with ⟨a, s₁, ha, hfa⟩ | ⟨e, he, rfl⟩
    · obtain ⟨made, hmade, -, hall⟩ := hx.calls _ _ _ ha
      obtain rfl := hall ⟨a, rfl⟩
      obtain ⟨made', hmade', hpre, hall'⟩ := (hf a).calls _ _ _ hfa
      exact ⟨made ++ made', by rw [hmade', hmade, List.append_assoc],
        (List.prefix_append_right_inj _).2 hpre, fun hr => by rw [hall' hr]⟩
    · obtain ⟨made, hmade, hpre, -⟩ := hx.calls _ _ _ he
      refine ⟨made, hmade, hpre.trans (List.prefix_append _ _), ?_⟩
      rintro ⟨_, hok⟩
      cases hok

theorem follows_call_bind {cs : List Call} {f : Unit → Action α} (plan : FaultPlan) (c : Call)
    (hf : ∀ u, Follows plan cs (f u)) : Follows plan (c :: cs) (call plan c >>= f) :=
  (follows_call plan c).bind hf

theorem follows_quiet_bind {cs : List Call} {x : Action α} {f : α → Action β}
    (hx : Within (Asks []) x) (hf : ∀ a, Follows plan cs (f a)) : Follows plan cs (x >>= f) :=
  (follows_of_asks_nil hx).bind hf

/-! ## What an action fails with -/

/-- What the action fails with is not worded for the caller yet. -/
def Unworded (x : Action α) : Prop :=
  ∀ s e s', x s = (.error e, s') → ∀ m, e ≠ .reported m

theorem unworded_bind {x : Action α} {f : α → Action β} (hx : Unworded x)
    (hf : ∀ a, Unworded (f a)) : Unworded (x >>= f) := by
  intro s e s' h
  rcases bind_cases h with ⟨a, s₁, -, hfa⟩ | ⟨x', he, hx'⟩
  · exact hf a _ _ _ hfa
  · exact Except.error.inj hx' ▸ hx _ _ _ he

theorem unworded_pure (a : α) : Unworded (Pure.pure a) := by
  intro s e s' h
  exact absurd (pure_cases h).1 (by simp)

theorem unworded_modify (f : Session → Session) : Unworded (modify f) := by
  intro s e s' h
  exact absurd (modify_cases h).1 (by simp)

theorem unworded_get : Unworded get := by
  intro s e s' h
  cases (Prod.mk.inj h).1

theorem unworded_call (hplan : ∀ c n m, plan c n ≠ some (.reported m)) (c : Call) :
    Unworded (call plan c) := by
  intro s e s' h m
  rintro rfl
  rcases (call_cases h).2 with ⟨hok, -⟩ | ⟨e, he, hp⟩
  · cases hok
  · exact hplan _ _ m (Except.error.inj he ▸ hp)

theorem unworded_ofFault (x : Except Fault α) : Unworded (ofFault x) := by
  intro s e s' h m
  rcases (ofFault_cases h).2 with ⟨a, -, ha⟩ | ⟨f, -, hf⟩
  · cases ha
  · rw [Except.error.inj hf]
    simp

theorem unworded_query (p : Path) (f : FileTree → Except SystemError α) :
    Unworded (query p f) := by
  intro s e s' h m
  rcases (query_cases h).2 with ⟨a, ha, -⟩ | ⟨x, hx, -⟩
  · cases ha
  · rw [Except.error.inj hx]
    simp

theorem unworded_change (p : Path) (f : FileTree → Except SystemError FileTree) :
    Unworded (change p f) := by
  intro s e s' h m
  rcases change_cases h with ⟨t, ht, -⟩ | ⟨-, x, hx, -⟩
  · cases ht
  · rw [Except.error.inj hx]
    simp

end AccessPolicy.Action
