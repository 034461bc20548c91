import AccessPolicy.Directive.Quote
import Mathlib.Data.List.Basic

/-!
# Reading quoted arguments

How an argument in quotes is read (`argument?`) : a backslash in front of a quote or of another
backslash stands for that, every other character for itself, and the first quote without such a
backslash ends the argument. What follows an argument has no part in how it is read
(`argument?_append`).

What `quote` writes is read back, whatever follows it (`argument?_quote_append`), so no two texts
are written alike, and nothing shorter than the whole quoted form is an argument
(`isSome_argument?_take_quote`). `quote_reads_back` says all of it, of the quoted form as two
replacements make it, first of the backslashes and then of the quotes (`quote_eq_replaced`).
-/

namespace AccessPolicy.Directive

/-! ## The reader -/

/-- The argument whose opening quote is read already, and the text behind its closing quote. -/
def restOfArgument? : Text → Option (Text × Text)
  | [] => none
  | [c] => if c = .char '\x22' then some ([], []) else none
  | c :: d :: t =>
    if c = .char '\x22' then some ([], d :: t)
    else if c = .char '\\' ∧ (d = .char '\\' ∨ d = .char '\x22') then
      (restOfArgument? t).map fun r => (d :: r.1, r.2)
    else (restOfArgument? (d :: t)).map fun r => (c :: r.1, r.2)

/-- The argument in quotes that a text begins with, and the text behind it. -/
def argument? : Text → Option (Text × Text)
  | c :: t => if c = .char '\x22' then restOfArgument? t else none
  | [] => none

theorem restOfArgument?_cons_quote (t : Text) :
    restOfArgument? (.char '\x22' :: t) = some ([], t) := by
  cases t <;> rfl

/-- The rest of an argument is read alike if more follows. -/
theorem restOfArgument?_append (u : Text) : ∀ {t : Text} {r : Text × Text},
    restOfArgument? t = some r → restOfArgument? (t ++ u) = some (r.1, r.2 ++ u)
  | [], _, h => nomatch h
  | [c], r, h => by
    rw [restOfArgument?] at h
    split at h
    · next hc =>
      obtain rfl := Option.some.inj h
      rw [hc]
      exact restOfArgument?_cons_quote u
    · nomatch h
  | c :: d :: t, r, h => by
    rw [restOfArgument?] at h
    rw [List.cons_append, List.cons_append, restOfArgument?]
    split_ifs at h ⊢
    · obtain rfl := Option.some.inj h
      rfl
    · obtain ⟨r, hread, rfl⟩ := Option.map_eq_some_iff.1 h
      rw [restOfArgument?_append u hread]
      rfl
    · obtain ⟨r, hread, rfl⟩ := Option.map_eq_some_iff.1 h
      rw [← List.cons_append, restOfArgument?_append u hread]
      rfl

/-- An argument is read alike if more follows. -/
theorem argument?_append {t : Text} {r : Text × Text} (u : Text) (h : argument? t = some r) :
    argument? (t ++ u) = some (r.1, r.2 ++ u) := by
  cases t with
  | nil => nomatch h
  | cons c t =>
    rw [argument?] at h
    rw [List.cons_append, argument?]
    split_ifs at h ⊢
    exact restOfArgument?_append u h

/-! ## Reading what is quoted -/

/-- One code point that is quoted is one that is read. -/
theorem restOfArgument?_escape_append (c : CodePoint) {t : Text} (ht : t ≠ []) :
    restOfArgument? (escape c ++ t) = (restOfArgument? t).map fun r => (c :: r.1, r.2) := by
  obtain ⟨d, t, rfl⟩ := List.exists_cons_of_ne_nil ht
  rw [escape]
  split
  · next hc =>
    rw [List.cons_append, List.cons_append, List.nil_append, restOfArgument?,
      if_neg (by decide), if_pos ⟨rfl, hc⟩]
  · next hc =>
    rw [not_or] at hc
    rw [List.cons_append, List.nil_append, restOfArgument?, if_neg hc.2,
      if_neg fun h => hc.1 h.1]

/-- What is quoted is read back, and the reading ends at the closing quote. -/
theorem argument?_quote_append (s rest : Text) : argument? (quote s ++ rest) = some (s, rest) := by
  have hescaped : restOfArgument? (s.flatMap escape ++ .char '\x22' :: rest) = some (s, rest) := by
    induction s with
    | nil => exact restOfArgument?_cons_quote rest
    | cons c s ih =>
      rw [List.flatMap_cons, List.append_assoc, restOfArgument?_escape_append c (by simp), ih]
      rfl
  rw [quote, List.cons_append, List.cons_append, List.append_assoc, argument?, if_pos rfl]
  exact hescaped

theorem argument?_quote (s : Text) : argument? (quote s) = some (s, []) := by
  simpa only [List.append_nil] using argument?_quote_append s []

/-- No argument is over before the end of the quoted form. -/
theorem isSome_argument?_take_quote (s : Text) (n : Nat) :
    (argument? ((quote s).take n)).isSome ↔ (quote s).length ≤ n := by
  constructor
  · intro h
    obtain ⟨r, hread⟩ := Option.isSome_iff_exists.1 h
    -- what is cut off would be left over by the reading of the whole
    have hwhole := argument?_append ((quote s).drop n) hread
    rw [List.take_append_drop, argument?_quote, Option.some.injEq, Prod.mk.injEq] at hwhole
    exact List.drop_eq_nil_iff.1 (List.append_eq_nil_iff.1 hwhole.2.symm).2
  · intro h
    rw [List.take_of_length_le h, argument?_quote]
    rfl

/-! ## Quoting by replacements -/

/-- The text with another text in the place of each code point that is `old`. -/
def replaced (old : CodePoint) (new s : Text) : Text :=
  s.flatMap fun c => if c = old then new else [c]

/-- The quotes that are replaced second are those of the text itself, as the first replacement
puts backslashes only. -/
theorem replaced_replaced (s : Text) :
    replaced (.char '\x22') "\\\"" (replaced (.char '\\') "\\\\" s) = s.flatMap escape := by
  rw [replaced, replaced, List.flatMap_assoc]
  refine List.flatMap_congr fun c _ => ?_
  by_cases hback : c = .char '\\'
  · subst hback
    rfl
  · by_cases hquote : c = .char '\x22'
    · subst hquote
      rfl
    · rw [if_neg hback, List.flatMap_cons, if_neg hquote, escape, if_neg (by simp [hback, hquote])]
      rfl

theorem quote_eq_replaced (s : Text) : quote s =
    "\"" ++ replaced (.char '\x22') "\\\"" (replaced (.char '\\') "\\\\" s) ++ "\"" := by
  rw [replaced_replaced]
  rfl

/-- In the other order a quote of the text ends the argument. -/
example : argument? ("\"" ++ replaced (.char '\\') "\\\\" (replaced (.char '\x22') "\\\"" "\"") ++
    "\"") = some (Text.ofString "\\", Text.ofString "\"") := by decide

/-- A text is quoted by replacing its backslashes and then its quotes. It is read back from its
quoted form whatever follows, and nothing shorter than the quoted form is an argument. -/
theorem quote_reads_back : Function.Injective quote ∧ ∀ s : Text,
    quote s = "\"" ++ replaced (.char '\x22') "\\\"" (replaced (.char '\\') "\\\\" s) ++ "\"" ∧
    (∀ rest, argument? (quote s ++ rest) = some (s, rest)) ∧
    ∀ n, (argument? ((quote s).take n)).isSome ↔ (quote s).length ≤ n := by
  refine ⟨fun s t h => ?_, fun s => ⟨quote_eq_replaced s, argument?_quote_append s,
    isSome_argument?_take_quote s⟩⟩
  have hread := argument?_quote s
  rw [h, argument?_quote t] at hread
  exact (Prod.mk.inj (Option.some.inj hread)).1.symm

end AccessPolicy.Directive
