import AccessPolicy.Files.Session
import AccessPolicy.Proofs.Result
import Mathlib.Data.List.Basic

/-!
# How actions end

The steps of an action are taken apart one by one : `Action.bind_cases` and
`Action.onFailure_cases` split a run where the first action ends, and there is one such
fact for each basic action.

`Action.Within` : whatever an action comes to, the session it leaves is related to the one
it started from. The relations used are `Session.Asks` (only calls of certain kinds were
made) and `Session.Passes` (also nothing was staged, and the tree changed in a certain way).
-/

namespace AccessPolicy

/-- A refusal by the file system or for want of an account, as opposed to a value that a
step cannot work on. -/
def Failure.IsRefusal : Failure → Prop
  | .system _ => True
  | .lookup _ => True
  | _ => False

namespace Action

variable {α β : Type} {s s' : Session} {plan : FaultPlan}

/-! ## Taking a run apart -/

theorem bind_cases {x : Action α} {f : α → Action β} {r : Except Failure β}
    (h : (x >>= f) s = (r, s')) :
    (∃ a s₁, x s = (.ok a, s₁) ∧ f a s₁ = (r, s')) ∨
      ∃ e, x s = (.error e, s') ∧ r = .error e := by
  change bind x f s = _ at h
  unfold bind at h
  split at h
  · rename_i a s₁ hx
    exact .inl ⟨a, s₁, hx, h⟩
  · rename_i e s₁ hx
    obtain ⟨rfl, rfl⟩ := Prod.mk.inj h
    exact .inr ⟨e, hx, rfl⟩

theorem bind_ok {x : Action α} {f : α → Action β} {b : β} (h : (x >>= f) s = (.ok b, s')) :
    ∃ a s₁, x s = (.ok a, s₁) ∧ f a s₁ = (.ok b, s') := by
  rcases bind_cases h with h | ⟨e, -, he⟩
  · exact h
  · exact absurd he (by simp)

/-- An action whose value is replaced ends where it ended. -/
theorem bind_pure_cases {x : Action α} {b : β} {r : Except Failure β}
    (h : (x >>= fun _ => (Pure.pure b : Action β)) s = (r, s')) :
    ∃ y, x s = (y, s') ∧ r = y.map fun _ => b := by
  rcases bind_cases h with ⟨a, s₁, hx, hb⟩ | ⟨e, hx, rfl⟩
  · obtain ⟨rfl, rfl⟩ := Prod.mk.inj hb
    exact ⟨_, hx, rfl⟩
  · exact ⟨_, hx, rfl⟩

theorem bind_of_ok {x : Action α} {f : α → Action β} {a : α} (h : x s = (.ok a, s')) :
    (x >>= f) s = f a s' := by
  change bind x f s = _
  rw [bind, h]

theorem bind_of_error {x : Action α} {f : α → Action β} {e : Failure} (h : x s = (.error e, s')) :
    (x >>= f) s = (.error e, s') := by
  change bind x f s = _
  rw [bind, h]

theorem get_bind {f : Session → Action α} : (get >>= f) s = f s s := rfl

theorem modify_bind {g : Session → Session} {f : Unit → Action α} :
    (modify g >>= f) s = f () (g s) := rfl

theorem ofFault_bind {a : α} {f : α → Action β} : (ofFault (.ok a) >>= f) s = f a s := rfl

theorem pure_cases {a : α} {r : Except Failure α} (h : (Pure.pure a : Action α) s = (r, s')) :
    r = .ok a ∧ s' = s :=
  ⟨(Prod.mk.inj h).1.symm, (Prod.mk.inj h).2.symm⟩

theorem fail_cases {e : Failure} {r : Except Failure α} (h : (fail e : Action α) s = (r, s')) :
    r = .error e ∧ s' = s :=
  ⟨(Prod.mk.inj h).1.symm, (Prod.mk.inj h).2.symm⟩

theorem modify_cases {f : Session → Session} {r : Except Failure Unit}
    (h : modify f s = (r, s')) : r = .ok () ∧ s' = f s :=
  ⟨(Prod.mk.inj h).1.symm, (Prod.mk.inj h).2.symm⟩

theorem onFailure_cases {x : Action α} {handler : Failure → Action α} {r : Except Failure α}
    (h : x.onFailure handler s = (r, s')) :
    (∃ a, x s = (.ok a, s') ∧ r = .ok a) ∨
      ∃ e s₁, x s = (.error e, s₁) ∧ handler e s₁ = (r, s') := by
  unfold onFailure at h
  split at h
  · rename_i a s₁ hx
    obtain ⟨rfl, rfl⟩ := Prod.mk.inj h
    exact .inl ⟨a, hx, rfl⟩
  · rename_i e s₁ hx
    exact .inr ⟨e, s₁, hx, h⟩

theorem endingWith_cases {x : Action α} {last : Action Unit} {r : Except Failure α}
    (h : x.endingWith last s = (r, s')) : ∃ s₁, x s = (r, s₁) ∧ s' = (last s₁).2 := by
  unfold endingWith at h
  obtain ⟨rfl, rfl⟩ := Prod.mk.inj h
  exact ⟨_, rfl, rfl⟩

/-- A call is recorded, and fails exactly as the plan says. -/
theorem call_cases {c : Call} {r : Except Failure Unit} (h : call plan c s = (r, s')) :
    s' = { s with calls := s.calls ++ [c] } ∧
      ((r = .ok () ∧ plan c (s.calls.count c) = none) ∨
        ∃ e, r = .error e ∧ plan c (s.calls.count c) = some e) := by
  unfold call at h
  simp only at h
  split at h
  · rename_i e he
    obtain ⟨rfl, rfl⟩ := Prod.mk.inj h
    exact ⟨rfl, .inr ⟨e, rfl, he⟩⟩
  · rename_i hn
    obtain ⟨rfl, rfl⟩ := Prod.mk.inj h
    exact ⟨rfl, .inl ⟨rfl, hn⟩⟩

theorem query_cases {p : Path} {f : FileTree → Except SystemError α} {r : Except Failure α}
    (h : query p f s = (r, s')) :
    s' = s ∧ ((∃ a, r = .ok a ∧ f s.tree = .ok a) ∨
      ∃ e, r = .error (.system (e.message p)) ∧ f s.tree = .error e) := by
  unfold query at h
  split at h
  · rename_i a ha
    obtain ⟨rfl, rfl⟩ := Prod.mk.inj h
    exact ⟨rfl, .inl ⟨a, rfl, ha⟩⟩
  · rename_i e he
    obtain ⟨rfl, rfl⟩ := Prod.mk.inj h
    exact ⟨rfl, .inr ⟨e, rfl, he⟩⟩

theorem change_cases {p : Path} {f : FileTree → Except SystemError FileTree}
    {r : Except Failure Unit} (h : change p f s = (r, s')) :
    (∃ t, r = .ok () ∧ f s.tree = .ok t ∧ s' = { s with tree := t }) ∨
      (s' = s ∧ ∃ e, r = .error (.system (e.message p)) ∧ f s.tree = .error e) := by
  unfold change at h
  split at h
  · rename_i t ht
    obtain ⟨rfl, rfl⟩ := Prod.mk.inj h
    exact .inl ⟨t, rfl, ht, rfl⟩
  · rename_i e he
    obtain ⟨rfl, rfl⟩ := Prod.mk.inj h
    exact .inr ⟨rfl, e, rfl, he⟩

theorem ofFault_cases {x : Except Fault α} {r : Except Failure α}
    (h : ofFault x s = (r, s')) :
    s' = s ∧ ((∃ a, x = .ok a ∧ r = .ok a) ∨ ∃ f, x = .error f ∧ r = .error (.fault f)) := by
  cases x with
  | ok a =>
    obtain ⟨rfl, rfl⟩ := Prod.mk.inj h
    exact ⟨rfl, .inl ⟨a, rfl, rfl⟩⟩
  | error f =>
    obtain ⟨rfl, rfl⟩ := Prod.mk.inj h
    exact ⟨rfl, .inr ⟨f, rfl, rfl⟩⟩

end Action

/-! ## What holds however an action ends -/

namespace Session

/-- Only calls of certain kinds were made. -/
def Asks (kinds : List Call) (s s' : Session) : Prop :=
  ∃ cs, s'.calls = s.calls ++ cs ∧ ∀ c ∈ cs, c ∈ kinds

/-- Only calls of certain kinds were made, nothing was staged or unstaged, and the tree
changed in a certain way. -/
structure Passes (kinds : List Call) (T : FileTree → FileTree → Prop) (s s' : Session) :
    Prop where
  asks : Asks kinds s s'
  staged : s'.staged = s.staged
  tree : T s.tree s'.tree

variable {kinds : List Call} {T : FileTree → FileTree → Prop} {s s₁ s' : Session}

theorem Asks.of_eq (h : s'.calls = s.calls) : Asks kinds s s' :=
  ⟨[], by simp [h], by simp⟩

theorem Asks.trans (h : Asks kinds s s₁) (h' : Asks kinds s₁ s') : Asks kinds s s' := by
  obtain ⟨cs, hcs, hk⟩ := h
  obtain ⟨cs', hcs', hk'⟩ := h'
  refine ⟨cs ++ cs', by rw [hcs', hcs, List.append_assoc], ?_⟩
  intro c hc
  rcases List.mem_append.1 hc with hc | hc
  · exact hk c hc
  · exact hk' c hc

theorem Asks.count_eq (h : Asks kinds s s') {c : Call} (hc : c ∉ kinds) :
    s'.calls.count c = s.calls.count c := by
  obtain ⟨cs, hcs, hk⟩ := h
  rw [hcs, List.count_append, List.count_eq_zero.2 fun hmem => hc (hk c hmem), Nat.add_zero]

theorem Asks.mem (h : Asks kinds s s') {c : Call} (hc : c ∈ s'.calls) :
    c ∈ s.calls ∨ c ∈ kinds := by
  obtain ⟨cs, hcs, hk⟩ := h
  rw [hcs] at hc
  exact (List.mem_append.1 hc).imp_right (hk c)

end Session

namespace Action

open Session (Asks Passes)

variable {α β : Type} {R : Session → Session → Prop} {kinds : List Call}
  {T : FileTree → FileTree → Prop}

/-- However the action ends, the session it leaves is related to the one it starts from. -/
def Within (R : Session → Session → Prop) (x : Action α) : Prop :=
  ∀ s r s', x s = (r, s') → R s s'

/-- A relation that holds over no step and over two steps where it holds over each. -/
structure IsPreorder {σ : Type} (R : σ → σ → Prop) : Prop where
  refl : ∀ s, R s s
  trans : ∀ {s s₁ s'}, R s s₁ → R s₁ s' → R s s'

theorem isPreorder_asks (kinds : List Call) : IsPreorder (Asks kinds) :=
  ⟨fun _ => .of_eq rfl, Asks.trans⟩

theorem isPreorder_passes (kinds : List Call) (hT : IsPreorder T) :
    IsPreorder (Passes kinds T) :=
  ⟨fun _ => ⟨.of_eq rfl, rfl, hT.refl _⟩, fun h h' =>
    ⟨h.asks.trans h'.asks, h'.staged.trans h.staged, hT.trans h.tree h'.tree⟩⟩

namespace IsPreorder

variable (hR : IsPreorder R)

include hR

theorem within_bind {x : Action α} {f : α → Action β} (hx : Within R x)
    (hf : ∀ a, Within R (f a)) : Within R (x >>= f) := by
  intro s r s' h
  rcases bind_cases h with ⟨a, s₁, ha, hfa⟩ | ⟨e, he, -⟩
  · exact hR.trans (hx _ _ _ ha) (hf a _ _ _ hfa)
  · exact hx _ _ _ he

theorem within_onFailure {x : Action α} {handler : Failure → Action α} (hx : Within R x)
    (hh : ∀ e, Within R (handler e)) : Within R (x.onFailure handler) := by
  intro s r s' h
  rcases onFailure_cases h with ⟨a, ha, -⟩ | ⟨e, s₁, he, hhe⟩
  · exact hx _ _ _ ha
  · exact hR.trans (hx _ _ _ he) (hh e _ _ _ hhe)

theorem within_endingWith {x : Action α} {last : Action Unit} (hx : Within R x)
    (hl : Within R last) : Within R (x.endingWith last) := by
  intro s r s' h
  obtain ⟨s₁, hs₁, rfl⟩ := endingWith_cases h
  exact hR.trans (hx _ _ _ hs₁) (hl _ _ _ rfl)

theorem within_pure (a : α) : Within R (Pure.pure a) := by
  intro s r s' h
  rw [(pure_cases h).2]
  exact hR.refl s

theorem within_fail (e : Failure) : Within R (fail e : Action α) := by
  intro s r s' h
  rw [(fail_cases h).2]
  exact hR.refl s

theorem within_get : Within R get := by
  intro s r s' h
  obtain ⟨-, rfl⟩ := Prod.mk.inj h
  exact hR.refl s

theorem within_query (p : Path) (f : FileTree → Except SystemError α) :
    Within R (query p f) := by
  intro s r s' h
  rw [(query_cases h).1]
  exact hR.refl s

theorem within_ofFault (x : Except Fault α) : Within R (ofFault x) := by
  intro s r s' h
  rw [(ofFault_cases h).1]
  exact hR.refl s

theorem within_forEach {f : α → Action Unit} (hf : ∀ a, Within R (f a)) :
    ∀ as : List α, Within R (forEach f as)
  | [] => hR.within_pure ()
  | a :: as => hR.within_bind (hf a) fun _ => within_forEach hf as

end IsPreorder

theorem within_modify {f : Session → Session} (hf : ∀ s, R s (f s)) :
    Within R (modify f) := by
  intro s r s' h
  rw [(modify_cases h).2]
  exact hf s

theorem asks_call (plan : FaultPlan) {c : Call} (hc : c ∈ kinds) :
    Within (Asks kinds) (call plan c) := by
  intro s r s' h
  rw [(call_cases h).1]
  exact ⟨[c], rfl, by simpa using hc⟩

theorem asks_change (p : Path) (f : FileTree → Except SystemError FileTree) :
    Within (Asks kinds) (change p f) := by
  intro s r s' h
  rcases change_cases h with ⟨t, -, -, rfl⟩ | ⟨rfl, -⟩
  · exact .of_eq rfl
  · exact .of_eq rfl

/-- An action that starts with a call. -/
theorem calls_of_call_bind {c : Call} {f : Unit → Action α} {s s' : Session}
    {r : Except Failure α} (hf : ∀ u, Within (Asks kinds) (f u))
    (h : (call plan c >>= f) s = (r, s')) :
    ∃ cs, s'.calls = s.calls ++ c :: cs ∧ ∀ c' ∈ cs, c' ∈ kinds := by
  rcases bind_cases h with ⟨u, s₁, hcall, hfu⟩ | ⟨e, hcall, -⟩
  · obtain ⟨cs, hcs, hk⟩ := hf u _ _ _ hfu
    rw [(call_cases hcall).1] at hcs
    exact ⟨cs, by simpa using hcs, hk⟩
  · rw [(call_cases hcall).1]
    exact ⟨[], rfl, by simp⟩

variable (hT : IsPreorder T)

include hT

theorem passes_call (plan : FaultPlan) {c : Call} (hc : c ∈ kinds) :
    Within (Passes kinds T) (call plan c) := by
  intro s r s' h
  have hasks := asks_call plan hc _ _ _ h
  rw [(call_cases h).1] at hasks ⊢
  exact ⟨hasks, rfl, hT.refl _⟩

theorem passes_note (level : LogLevel) (message : Text) :
    Within (Passes kinds T) (note level message) :=
  within_modify fun _ => ⟨.of_eq rfl, rfl, hT.refl _⟩

theorem passes_change (p : Path) {f : FileTree → Except SystemError FileTree}
    (hf : ∀ t t', f t = .ok t' → T t t') : Within (Passes kinds T) (change p f) := by
  intro s r s' h
  rcases change_cases h with ⟨t, -, ht, rfl⟩ | ⟨rfl, -⟩
  · exact ⟨.of_eq rfl, rfl, hf _ _ ht⟩
  · exact ⟨.of_eq rfl, rfl, hT.refl _⟩

end Action

/-! ## Refusals that are told -/

/-- The failure says that something was refused. -/
def Failure.IsTold : Failure → Prop
  | .fault _ => False
  | _ => True

/-- The plan refuses calls as the system does : with a message, or for want of an account
where the owner is changed. -/
def FaultPlan.Refuses (plan : FaultPlan) : Prop :=
  ∀ c n e, plan c n = some e →
    (∃ m, m ≠ [] ∧ e = .system m) ∨ c = .setOwner ∧ ∃ m, e = .lookup m

theorem FaultPlan.refuses_single {m : Text} (hm : m ≠ []) (c : Call) (index : Nat) :
    (FaultPlan.single c index (.system m)).Refuses := by
  intro c' n e h
  unfold FaultPlan.single at h
  split_ifs at h
  exact .inl ⟨m, hm, (Option.some.inj h).symm⟩

/-- None of the calls that were made between the sessions is one that the plan refuses. -/
def Session.Unrefused (plan : FaultPlan) (s s' : Session) : Prop :=
  ∀ c n, s.calls.count c ≤ n → n < s'.calls.count c → plan c n = none

namespace Action

open Session (Asks Unrefused)

variable {α β : Type} {plan : FaultPlan} {s s₁ s' : Session}

/-- A run of the action that ends in a value, or for a value that it cannot work on, met no
call that the plan refuses. -/
def Tells (plan : FaultPlan) (x : Action α) : Prop :=
  ∀ s r s', x s = (r, s') → (∀ e, r = .error e → ¬ e.IsTold) → Unrefused plan s s'

theorem calls_of_asks_nil (h : Asks [] s s') : s'.calls = s.calls := by
  obtain ⟨cs, hcs, hk⟩ := h
  rw [hcs, List.eq_nil_iff_forall_not_mem.2 fun c hc => absurd (hk c hc) (by simp),
    List.append_nil]

theorem unrefused_of_calls (h : s'.calls = s.calls) : Unrefused plan s s' := by
  intro c n hle hlt
  rw [h] at hlt
  omega

theorem unrefused_trans (h : Unrefused plan s s₁) (h' : Unrefused plan s₁ s') :
    Unrefused plan s s' := by
  intro c n hle hlt
  rcases Nat.lt_or_ge n (s₁.calls.count c) with hn | hn
  · exact h c n hle hn
  · exact h' c n hn hlt

theorem tells_of_asks_nil {x : Action α} (hx : Within (Asks []) x) : Tells plan x :=
  fun s r s' h _ => unrefused_of_calls (calls_of_asks_nil (hx s r s' h))

theorem tells_bind {x : Action α} {f : α → Action β} (hx : Tells plan x)
    (hf : ∀ a, Tells plan (f a)) : Tells plan (x >>= f) := by
  intro s r s' h hr
  rcases bind_cases h with ⟨a, s₁, ha, hfa⟩ | ⟨e, he, rfl⟩
  · exact unrefused_trans (hx _ _ _ ha (by simp)) (hf a _ _ _ hfa hr)
  · exact hx _ _ _ he fun e' he' => hr e' (by rw [Except.error.inj he'])

theorem tells_call (hplan : plan.Refuses) (c : Call) : Tells plan (call plan c) := by
  intro s r s' h hr
  obtain ⟨rfl, ⟨-, hnone⟩ | ⟨e, rfl, he⟩⟩ := call_cases h
  · intro c' n hle hlt
    rw [List.count_append, List.count_singleton] at hlt
    split_ifs at hlt with hc
    · obtain rfl : c = c' := by simpa using hc
      rwa [show n = s.calls.count c by omega]
    · omega
  · rcases hplan _ _ _ he with ⟨m, -, rfl⟩ | ⟨-, m, rfl⟩
    · exact absurd trivial (hr _ rfl)
    · exact absurd trivial (hr _ rfl)

/-- A handler that makes no call and turns what it is told into what is told again. -/
theorem tells_onFailure {x : Action α} {handler : Failure → Action α} (hx : Tells plan x)
    (hquiet : ∀ e, Within (Asks []) (handler e))
    (htold : ∀ e, e.IsTold → ∀ s r s', handler e s = (r, s') → ∃ e', r = .error e' ∧ e'.IsTold) :
    Tells plan (x.onFailure handler) := by
  intro s r s' h hr
  rcases onFailure_cases h with ⟨a, ha, rfl⟩ | ⟨e, s₁, he, hh⟩
  · exact hx _ _ _ ha (by simp)
  · have hsilent : e.IsTold → False := fun ht => by
      obtain ⟨e', rfl, ht'⟩ := htold e ht _ _ _ hh
      exact hr e' rfl ht'
    refine unrefused_trans (hx _ _ _ he fun e' he' => ?_)
      (unrefused_of_calls (calls_of_asks_nil (hquiet e _ _ _ hh)))
    rw [← Except.error.inj he']
    exact hsilent

theorem tells_forEach {f : α → Action Unit} (hf : ∀ a, Tells plan (f a)) :
    ∀ as : List α, Tells plan (forEach f as)
  | [] => tells_of_asks_nil ((isPreorder_asks []).within_pure ())
  | a :: as => tells_bind (hf a) fun _ => tells_forEach hf as

end Action

end AccessPolicy
