import AccessPolicy.Text.CodePoint
import AccessPolicy.Text.Sorted
import Mathlib.Data.List.Perm.Basic

/-!
# Sorting

Sorting puts the members of a list into another order (`Sorted.sort_perm`), and for a total
order into an ascending one (`Sorted.pairwise_sort`). Lists with the same members, no two of
which are equal for the order, are sorted alike (`Sorted.sort_eq_of_perm`). The order of texts
is such an order (`Text.le_total`, `Text.le_trans`, `Text.le_antisymm`).
-/

namespace AccessPolicy

namespace Sorted

variable {α : Type} (le : α → α → Bool)

theorem insert_perm (a : α) : ∀ l : List α, (insert le a l).Perm (a :: l)
  | [] => List.Perm.refl _
  | b :: bs => by
    rw [insert]
    split
    · exact List.Perm.refl _
    · exact ((insert_perm a bs).cons b).trans (List.Perm.swap a b bs)

theorem sort_perm : ∀ l : List α, (sort le l).Perm l
  | [] => List.Perm.refl _
  | a :: as => (insert_perm le a (sort le as)).trans ((sort_perm as).cons a)

variable {le} (total : ∀ a b, le a b = true ∨ le b a = true)
  (trans : ∀ a b c, le a b = true → le b c = true → le a c = true)

include total trans

theorem pairwise_insert (a : α) : ∀ {l : List α}, l.Pairwise (fun a b => le a b = true) →
    (insert le a l).Pairwise fun a b => le a b = true
  | [], _ => List.pairwise_singleton _ a
  | b :: bs, h => by
    obtain ⟨hb, hbs⟩ := List.pairwise_cons.1 h
    rw [insert]
    split
    · next hab =>
      refine List.pairwise_cons.2 ⟨fun c hc => ?_, h⟩
      rcases List.mem_cons.1 hc with rfl | hc
      · exact hab
      · exact trans a b c hab (hb c hc)
    · next hab =>
      refine List.pairwise_cons.2 ⟨fun c hc => ?_, pairwise_insert a hbs⟩
      rcases List.mem_cons.1 ((insert_perm le a bs).mem_iff.1 hc) with rfl | hc
      · exact (total c b).resolve_left hab
      · exact hb c hc

theorem pairwise_sort : ∀ l : List α, (sort le l).Pairwise fun a b => le a b = true
  | [] => List.Pairwise.nil
  | a :: as => pairwise_insert total trans a (pairwise_sort as)

/-- Lists with the same members are sorted alike, if the order tells their members apart. -/
theorem sort_eq_of_perm {l l' : List α} (h : l.Perm l')
    (antisymm : ∀ a ∈ l, ∀ b ∈ l, le a b = true → le b a = true → a = b) :
    sort le l = sort le l' := by
  have hperm : (sort le l).Perm (sort le l') :=
    (sort_perm le l).trans (h.trans (sort_perm le l').symm)
  refine hperm.eq_of_pairwise (fun a b ha hb => ?_) (pairwise_sort total trans l)
    (pairwise_sort total trans l')
  exact antisymm a ((sort_perm le l).mem_iff.1 ha) b
    (h.mem_iff.2 ((sort_perm le l').mem_iff.1 hb))

end Sorted

/-! ## The order of texts -/

theorem CodePoint.toNat_char_ne_half (c : Char) (n : Fin 0x800) :
    CodePoint.toNat (.char c) ≠ CodePoint.toNat (.half n) := by
  have hvalid : c.toNat < 0xD800 ∨ 0xDFFF < c.toNat ∧ c.toNat < 0x110000 := c.valid
  simp only [CodePoint.toNat]
  omega

theorem CodePoint.toNat_injective : Function.Injective CodePoint.toNat := by
  intro a b h
  cases a with
  | char c =>
    cases b with
    | char c' => rw [Char.toNat_inj.1 h]
    | half n => exact absurd h (toNat_char_ne_half c n)
  | half n =>
    cases b with
    | char c => exact absurd h.symm (toNat_char_ne_half c n)
    | half n' =>
      simp only [CodePoint.toNat] at h
      rw [Fin.ext (show n.val = n'.val by omega)]

namespace Text

theorem le_cons_iff {a b : CodePoint} {s t : Text} : le (a :: s) (b :: t) = true ↔
    a.toNat < b.toNat ∨ a.toNat = b.toNat ∧ le s t = true := by
  simp [le]

theorem le_total : ∀ s t : Text, le s t = true ∨ le t s = true
  | [], _ => .inl (by simp [le])
  | _ :: _, [] => .inr (by simp [le])
  | a :: s, b :: t => by
    rw [le_cons_iff, le_cons_iff]
    rcases Nat.lt_trichotomy a.toNat b.toNat with h | h | h
    · exact .inl (.inl h)
    · exact (le_total s t).imp (fun hst => .inr ⟨h, hst⟩) fun hts => .inr ⟨h.symm, hts⟩
    · exact .inr (.inl h)

theorem le_trans : ∀ s t u : Text, le s t = true → le t u = true → le s u = true
  | [], _, _, _, _ => by simp [le]
  | _ :: _, [], _, h, _ => by simp [le] at h
  | _ :: _, _ :: _, [], _, h => by simp [le] at h
  | a :: s, b :: t, c :: u, h, h' => by
    rw [le_cons_iff] at h h' ⊢
    rcases h with h | ⟨h, hst⟩ <;> rcases h' with h' | ⟨h', htu⟩
    · exact .inl (by omega)
    · exact .inl (by omega)
    · exact .inl (by omega)
    · exact .inr ⟨h.trans h', le_trans s t u hst htu⟩

theorem le_antisymm : ∀ s t : Text, le s t = true → le t s = true → s = t
  | [], [], _, _ => rfl
  | [], _ :: _, _, h => by simp [le] at h
  | _ :: _, [], h, _ => by simp [le] at h
  | a :: s, b :: t, h, h' => by
    rw [le_cons_iff] at h h'
    rcases h with h | ⟨hab, hst⟩
    · omega
    rcases h' with h' | ⟨-, hts⟩
    · omega
    rw [CodePoint.toNat_injective hab, le_antisymm s t hst hts]

end Text

end AccessPolicy
