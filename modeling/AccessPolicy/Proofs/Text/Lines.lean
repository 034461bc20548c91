import Mathlib.Algebra.Ring.Nat
import AccessPolicy.Text.Split

/-!
# Cutting texts and putting them together

`Text.split` is the list function `List.splitOn`, so words without the separator come back
from the text that `Text.joined` makes of them (`split_joined`), and lines without line
feeds from the text that `Text.ofLines` makes of them (`split_ofLines`). `count_ofLines`
counts the line feeds of such a text, those within the lines included.
-/

namespace AccessPolicy.Text

/-! ## Pieces -/

section Split

variable {α : Type} [DecidableEq α] {separator : α}

theorem split_eq_splitOn (separator : α) (cs : List α) :
    split separator cs = cs.splitOn separator := by
  induction cs with
  | nil => rw [split, List.splitOn_nil]
  | cons c cs ih =>
    rw [split, List.splitOn_cons_eq_if_modifyHead, ih]
    by_cases h : c = separator
    · simp [h]
    · obtain ⟨p, ps, hp⟩ := List.exists_cons_of_ne_nil (List.splitOn_ne_nil separator cs)
      simp [h, hp]

theorem split_of_not_mem {cs : List α} (h : separator ∉ cs) : split separator cs = [cs] := by
  rw [split_eq_splitOn, List.splitOn_eq_singleton h]

theorem split_append_cons {cs : List α} (h : separator ∉ cs) (rest : List α) :
    split separator (cs ++ separator :: rest) = cs :: split separator rest := by
  simp only [split_eq_splitOn]
  exact List.splitOn_append_cons_self_of_not_mem h rest

/-- The pieces with the separators between them are the text. -/
theorem intercalate_split (separator : α) (cs : List α) :
    List.intercalate [separator] (split separator cs) = cs := by
  rw [split_eq_splitOn, List.intercalate_splitOn]

theorem not_mem_of_mem_split : ∀ {cs piece : List α}, piece ∈ split separator cs →
    separator ∉ piece
  | [], piece, h => by
    obtain rfl : piece = [] := by simpa [split] using h
    simp
  | c :: cs, piece, h => by
    rw [split] at h
    by_cases hc : c = separator
    · rw [if_pos hc, List.mem_cons] at h
      rcases h with rfl | h
      · simp
      · exact not_mem_of_mem_split h
    · rw [if_neg hc] at h
      cases hs : split separator cs with
      | nil => exact absurd hs (split_ne_nil separator cs)
      | cons p ps =>
        simp only [hs, List.mem_cons] at h
        rcases h with rfl | h
        · have hp : separator ∉ p := not_mem_of_mem_split (hs ▸ List.mem_cons_self)
          simp [Ne.symm hc, hp]
        · exact not_mem_of_mem_split (hs ▸ List.mem_cons_of_mem p h)

theorem eq_of_split_eq_singleton {cs piece : List α} (h : split separator cs = [piece]) :
    cs = piece := by
  rw [← intercalate_split separator cs, h]
  simp [List.intercalate]

theorem eq_of_split_eq_pair {cs p q : List α} (h : split separator cs = [p, q]) :
    cs = p ++ separator :: q := by
  rw [← intercalate_split separator cs, h]
  simp [List.intercalate]

/-- Every character but the separator is one of a piece. -/
theorem mem_of_mem_split {cs : List α} {c : α} (h : c ∈ cs) (hc : c ≠ separator) :
    ∃ piece ∈ split separator cs, c ∈ piece := by
  induction cs with
  | nil => simp at h
  | cons d cs ih =>
    rw [split]
    rcases List.mem_cons.1 h with rfl | h
    · rw [if_neg hc]
      split <;> simp
    · obtain ⟨piece, hp, hmem⟩ := ih h
      split
      · exact ⟨piece, List.mem_cons_of_mem _ hp, hmem⟩
      · split
        · next hs => exact absurd hs (split_ne_nil separator cs)
        · next q qs hs =>
          rw [hs, List.mem_cons] at hp
          rcases hp with rfl | hp
          · exact ⟨d :: piece, by simp, List.mem_cons_of_mem d hmem⟩
          · exact ⟨piece, List.mem_cons_of_mem _ hp, hmem⟩

theorem subset_of_mem_split : ∀ {cs piece : List α}, piece ∈ split separator cs → piece ⊆ cs
  | [], piece, h => by
    obtain rfl : piece = [] := by simpa [split] using h
    exact List.Subset.refl []
  | c :: cs, piece, h => by
    rw [split] at h
    split at h
    · rcases List.mem_cons.1 h with rfl | h
      · exact List.nil_subset _
      · exact List.subset_cons_of_subset c (subset_of_mem_split h)
    · split at h
      · next hs => exact absurd hs (split_ne_nil separator cs)
      · next p ps hs =>
        rcases List.mem_cons.1 h with rfl | h
        · exact List.cons_subset_cons c (subset_of_mem_split (hs ▸ List.mem_cons_self))
        · exact List.subset_cons_of_subset c (subset_of_mem_split (hs ▸ List.mem_cons_of_mem p h))

end Split

/-- Words without the separator come back from the text they are joined to. -/
theorem split_joined {separator : CodePoint} {words : List Text} (hne : words ≠ [])
    (h : ∀ w ∈ words, separator ∉ w) : split separator (joined [separator] words) = words := by
  rw [split_eq_splitOn, joined, List.splitOn_intercalate separator h hne]

/-- One more word. -/
theorem joined_concat (separator word : Text) : ∀ {words : List Text}, words ≠ [] →
    joined separator (words ++ [word]) = joined separator words ++ separator ++ word
  | [w], _ => by simp [joined, List.intercalate_cons_cons]
  | w :: v :: words, _ => by
    have ih : joined separator (v :: words ++ [word]) = _ :=
      joined_concat separator word (List.cons_ne_nil v words)
    simp only [joined] at ih
    simp only [joined, List.cons_append, List.intercalate_cons_cons, List.append_assoc] at ih ⊢
    rw [ih]

theorem not_mem_joined {c : CodePoint} {separator : Text} (hsep : c ∉ separator) :
    ∀ {words : List Text}, (∀ w ∈ words, c ∉ w) → c ∉ joined separator words
  | [], _ => by simp [joined, List.intercalate]
  | [w], h => by simpa [joined, List.intercalate] using h w List.mem_cons_self
  | w :: w' :: words, h => by
    have hrest := not_mem_joined hsep fun v hv => h v (List.mem_cons_of_mem w hv)
    have hcons : joined separator (w :: w' :: words) =
        w ++ (separator ++ joined separator (w' :: words)) := by
      simp [joined, List.intercalate]
    rw [hcons, List.mem_append, List.mem_append, not_or, not_or]
    exact ⟨h w List.mem_cons_self, hsep, hrest⟩

/-! ## Lines -/

/-- Lines without line feeds come back from the text, followed by the empty piece behind the
last line feed. -/
theorem split_ofLines : ∀ {lines : List Text}, (∀ line ∈ lines, .char '\n' ∉ line) →
    split (.char '\n') (ofLines lines) = lines ++ [[]]
  | [], _ => rfl
  | line :: lines, h => by
    rw [ofLines, split_append_cons (h line List.mem_cons_self),
      split_ofLines fun l hl => h l (List.mem_cons_of_mem line hl), List.cons_append]

/-- One line feed for every line, and those within the lines. -/
theorem count_ofLines (lines : List Text) :
    (ofLines lines).count (.char '\n') =
      lines.length + (lines.map fun line => line.count (.char '\n')).sum := by
  induction lines with
  | nil => rfl
  | cons line lines ih =>
    simp only [ofLines, List.count_append, List.count_cons_self, ih, List.length_cons,
      List.map_cons, List.sum_cons]
    omega

end AccessPolicy.Text
