import AccessPolicy.Text.CodePoint
import AccessPolicy.Text.Newlines
import AccessPolicy.Text.Utf8

/-!
# Texts that are written and read back

The bytes of a string are read as that string (`Utf8.decode_encode`), so a text that was
written comes back with its line ends unified. It comes back as it was only if it has no
carriage return, of which unified line ends are free (`Text.not_mem_unifyNewlines`).
-/

namespace AccessPolicy

/-- The bytes of a string are read as that string. -/
theorem Utf8.decode_encode (s : String) : decode (encode s) = .ok s := by
  have hbytes : ByteArray.mk (encode s).toArray = s.toByteArray := by
    rw [← String.utf8Encode_toList]
    exact ByteArray.ext List.data_toByteArray.symm
  have hread : String.fromUTF8? s.toByteArray = some s := by
    rw [String.fromUTF8?, dif_pos s.isValidUTF8]
    rfl
  rw [decode, hbytes, hread]

namespace Text

theorem mem_ofChars {c : Char} {cs : List Char} : .char c ∈ ofChars cs ↔ c ∈ cs := by
  simp [ofChars]

/-- A text without halves is that of its string. -/
theorem eq_ofString_of_string? {t : Text} {s : String} (h : t.string? = some s) :
    t = ofString s := by
  obtain ⟨cs, hcs, rfl⟩ := Option.map_eq_some_iff.1 h
  rw [ofString, String.toList_ofList]
  clear h
  induction t generalizing cs with
  | nil =>
    obtain rfl := Option.some.inj hcs
    rfl
  | cons c t ih =>
    rw [List.mapM_cons] at hcs
    obtain ⟨x, hx, hcs⟩ := Option.bind_eq_some_iff.1 hcs
    obtain ⟨xs, hxs, hcs⟩ := Option.bind_eq_some_iff.1 hcs
    obtain rfl := Option.some.inj hcs
    cases c with
    | half n => cases hx
    | char c =>
      obtain rfl := Option.some.inj hx
      exact congrArg (CodePoint.char c :: ·) (ih xs hxs)

/-- No carriage return is left where line ends are unified. -/
theorem not_mem_unifyNewlines (cs : List Char) : '\r' ∉ unifyNewlines cs := by
  fun_induction unifyNewlines cs with
  | case1 => simp
  | case2 cs ih => simpa using ih
  | case3 c cs hcs ih =>
    rw [List.mem_cons, not_or]
    refine ⟨?_, ih⟩
    split
    · decide
    · next hc => exact fun h => hc h.symm

end Text

end AccessPolicy
