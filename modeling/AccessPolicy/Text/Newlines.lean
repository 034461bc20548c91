/-!
# Line ends

Text that is read back has every carriage return, alone or before a line feed, replaced by
one line feed. `Text.unifyNewlines` is that reading.
-/

namespace AccessPolicy.Text

/-- The text with one line feed for every line end. -/
def unifyNewlines : List Char → List Char
  | [] => []
  | '\r' :: '\n' :: cs => '\n' :: unifyNewlines cs
  | c :: cs => (if c = '\r' then '\n' else c) :: unifyNewlines cs

/-- A text without carriage returns reads back as itself. -/
theorem unifyNewlines_of_not_mem : ∀ {cs : List Char}, '\r' ∉ cs → unifyNewlines cs = cs
  | [], _ => rfl
  | c :: cs, h => by
    have hc : c ≠ '\r' := fun e => h (by simp [e])
    have hcs := unifyNewlines_of_not_mem fun e => h (List.mem_cons_of_mem c e)
    unfold unifyNewlines
    split
    · simp_all
    · simp_all
    · simp_all

end AccessPolicy.Text
