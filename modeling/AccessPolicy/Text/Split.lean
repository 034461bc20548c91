import AccessPolicy.Text.CodePoint

/-!
# Cutting texts

`Text.split` cuts a text at every occurrence of a separator, `Text.joined` puts words
together with a separator between them, and `Text.ofLines` puts lines together, each ended
by a line feed.
-/

namespace AccessPolicy.Text

/-- The pieces between the separators; there is always one more than there are separators. -/
def split {α : Type} [DecidableEq α] (separator : α) : List α → List (List α)
  | [] => [[]]
  | c :: cs =>
    if c = separator then [] :: split separator cs
    else match split separator cs with
      | [] => [[c]]
      | piece :: pieces => (c :: piece) :: pieces

/-- The lines one after the other, each ended by a line feed. -/
def ofLines : List Text → Text
  | [] => []
  | line :: lines => line ++ .char '\n' :: ofLines lines

/-- The words with a separator between them. -/
def joined (separator : Text) (words : List Text) : Text :=
  List.intercalate separator words

theorem split_ne_nil {α : Type} [DecidableEq α] (separator : α) (cs : List α) :
    split separator cs ≠ [] := by
  cases cs with
  | nil => simp [split]
  | cons c cs =>
    simp only [split]
    split
    · simp
    · split <;> simp

end AccessPolicy.Text
