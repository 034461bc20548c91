import AccessPolicy.Policy.Validate
import AccessPolicy.Proofs.Address

/-!
# Names of principals

What the validator's three rules for names come to. The key of a host is shown in some form
whatever it is, but only a text is shown as an address block (`exists_text_of_isBlock`); a
user's and a group's key are texts by their rules. A printable code point is no control
character (`isControl_of_isPrintable`), so users and groups have none in their names, and a
host has one only in its zone (`mem_zone_of_isControl`).
-/

namespace AccessPolicy

/-! ## Control characters -/

/-- A control character : below the space, or from U+007F to U+009F. -/
def CodePoint.isControl (c : CodePoint) : Bool :=
  c.toNat < 0x20 || (0x7F ≤ c.toNat && c.toNat ≤ 0x9F)

theorem CodePoint.isControl_lineFeed : CodePoint.isControl (.char '\n') = true := rfl

theorem CodePoint.isControl_eq_false_iff {c : CodePoint} :
    c.isControl = false ↔ 0x20 ≤ c.toNat ∧ ¬(0x7F ≤ c.toNat ∧ c.toNat ≤ 0x9F) := by
  simp [CodePoint.isControl]

theorem CodePoint.isControl_of_isPrintable {c : CodePoint} (h : c.isPrintable = true) :
    c.isControl = false := by
  cases c with
  | half n => cases h
  | char c =>
    simp only [CodePoint.isPrintable, Text.isPrintable] at h
    rw [CodePoint.isControl_eq_false_iff, CodePoint.toNat]
    split at h
    · have : 0x20 ≤ c.toNat := of_decide_eq_true h
      omega
    · next hge =>
      -- the first range of the table ends behind the last control character
      have hrange : (0x7F, 0xA0) ∈ Text.unprintableRanges := List.mem_cons_self
      have hnot : ¬(0x7F ≤ c.toNat ∧ c.toNat ≤ 0xA0) := by
        intro hc
        have : Text.unprintableRanges.contains c = true :=
          List.any_eq_true.2 ⟨_, hrange, by simpa using hc⟩
        simp [this] at h
      omega

theorem CodePoint.isControl_of_isVisible {c : Char} (h : Address.IsVisible c) :
    CodePoint.isControl (.char c) = false := by
  obtain ⟨h₁, h₂⟩ := h
  rw [CodePoint.isControl_eq_false_iff, CodePoint.toNat]
  omega

/-- A control character in an address block stands in the zone. -/
theorem Address.mem_zone_of_isControl {t : Text} (h : Address.isBlock t = true) {c : CodePoint}
    (hc : c ∈ t) (hcontrol : c.isControl = true) : c ∈ Address.zone t := by
  rcases Address.visible_or_mem_zone h c hc with ⟨d, rfl, hd⟩ | hz
  · rw [CodePoint.isControl_of_isVisible hd] at hcontrol
    cases hcontrol
  · exact hz

/-! ## Numerals -/

/-- The text has no colon and at most one dot, as numerals have. -/
def Text.IsPlain (cs : List Char) : Prop :=
  ':' ∉ cs ∧ cs.count '.' ≤ 1

instance (cs : List Char) : Decidable (Text.IsPlain cs) :=
  inferInstanceAs (Decidable (_ ∧ _))

/-- Neither a colon nor a dot. -/
def Text.HasNoMark (cs : List Char) : Prop :=
  ':' ∉ cs ∧ '.' ∉ cs

instance (cs : List Char) : Decidable (Text.HasNoMark cs) :=
  inferInstanceAs (Decidable (_ ∧ _))

namespace Text.HasNoMark

variable {cs ds : List Char}

theorem isPlain (h : HasNoMark cs) : IsPlain cs :=
  ⟨h.1, by rw [List.count_eq_zero.2 h.2]; omega⟩

theorem append (hc : HasNoMark cs) (hd : HasNoMark ds) : HasNoMark (cs ++ ds) := by
  constructor
  · simp [hc.1, hd.1]
  · simp [hc.2, hd.2]

theorem cons {c : Char} (hc : c ≠ ':' ∧ c ≠ '.') (h : HasNoMark cs) : HasNoMark (c :: cs) :=
  have hfirst : HasNoMark [c] := ⟨by simpa using hc.1.symm, by simpa using hc.2.symm⟩
  hfirst.append h

theorem subset (h : HasNoMark cs) (hsub : ds ⊆ cs) : HasNoMark ds :=
  ⟨fun hd => h.1 (hsub hd), fun hd => h.2 (hsub hd)⟩

theorem replicate {c : Char} (hc : c ≠ ':' ∧ c ≠ '.') (n : Nat) :
    HasNoMark (List.replicate n c) :=
  ⟨fun h => hc.1 (List.eq_of_mem_replicate h).symm,
    fun h => hc.2 (List.eq_of_mem_replicate h).symm⟩

/-- A point between two texts without marks is one dot. -/
theorem isPlain_append_dot (hc : HasNoMark cs) (hd : HasNoMark ds) :
    IsPlain (cs ++ '.' :: ds) := by
  constructor
  · simp [hc.1, hd.1]
  · simp [List.count_eq_zero.2 hc.2, List.count_eq_zero.2 hd.2]

end Text.HasNoMark

theorem hasNoMark_repr (n : Nat) : Text.HasNoMark (toString n).toList := by
  have digits : ∀ c ∈ (toString n).toList, c.isDigit = true := by
    intro c hc
    rw [Nat.toString_eq_repr, Nat.toList_repr] at hc
    exact Nat.isDigit_of_mem_toDigits (by decide) (by decide) hc
  exact ⟨fun h => absurd (digits _ h) (by decide), fun h => absurd (digits _ h) (by decide)⟩

theorem hasNoMark_int (n : Int) : Text.HasNoMark (toString n).toList := by
  rw [Int.toString_eq_repr, Int.repr_eq_if]
  split
  · exact hasNoMark_repr _
  · rw [String.toList_append]
    exact .append (by decide) (hasNoMark_repr _)

theorem hasNoMark_padded (width n : Nat) : Text.HasNoMark (Text.padded width n).toList := by
  rw [Text.padded, String.toList_append, String.toList_ofList]
  exact .append (.replicate (by decide) _) (hasNoMark_repr n)

theorem Decimal.hasNoMark_significant (d : Decimal) : Text.HasNoMark d.significant := by
  refine (hasNoMark_repr d.digits).subset fun c hc => ?_
  exact List.mem_reverse.1 ((List.dropWhile_sublist _).subset (List.mem_reverse.1 hc))

theorem Decimal.isPlain_positional {digits : List Char} (h : Text.HasNoMark digits)
    (point : Int) : Text.IsPlain (Decimal.positional digits point) := by
  have hzero : Text.HasNoMark ['0'] := by decide
  unfold Decimal.positional
  split
  · exact hzero.isPlain_append_dot (.append (.replicate (by decide) _) h)
  · split
    · exact Text.HasNoMark.isPlain_append_dot (.append h (.replicate (by decide) _)) hzero
    · exact Text.HasNoMark.isPlain_append_dot (h.subset (List.take_subset _ _))
        (h.subset (List.drop_subset _ _))

theorem Decimal.isPlain_scientific {digits : List Char} (h : Text.HasNoMark digits)
    (point : Int) : Text.IsPlain (Decimal.scientific digits point) := by
  have power : Text.HasNoMark ('e' :: (if point - 1 < 0 then '-' else '+') ::
      (Text.padded 2 (point - 1).natAbs).toList) := by
    refine .cons (by decide) (.cons ?_ (hasNoMark_padded _ _))
    split <;> decide
  cases digits with
  | nil => exact power.isPlain
  | cons d ds =>
    cases ds with
    | nil => exact (h.append power).isPlain
    | cons d' ds =>
      have hd : Text.HasNoMark [d] := h.subset (by simp)
      have hds : Text.HasNoMark (d' :: ds) := h.subset (List.subset_cons_self _ _)
      simpa [Decimal.scientific] using hd.isPlain_append_dot (hds.append power)

/-- A floating-point value is written without colons and with at most one dot. -/
theorem Binary64.isPlain_text (x : Binary64) : Text.IsPlain x.text.toList := by
  have signed : ∀ {cs : List Char}, Text.IsPlain cs →
      Text.IsPlain ((if x.isNegative then ['-'] else []) ++ cs) := by
    rintro cs ⟨hcolon, hdot⟩
    split
    · exact ⟨by simpa using hcolon, by simpa using hdot⟩
    · exact ⟨hcolon, hdot⟩
  unfold Binary64.text
  split
  · decide
  · rw [String.toList_ofList]
    refine signed ?_
    split
    · decide
    · split
      · decide
      · dsimp only
        split
        · exact Decimal.isPlain_positional (Decimal.hasNoMark_significant _) _
        · exact Decimal.isPlain_scientific (Decimal.hasNoMark_significant _) _

/-! ## Hosts -/

namespace Address

theorem isBlock_of_isPlain {t : Text} (h : Text.IsPlain t.chars) : isBlock t = false := by
  refine Bool.eq_false_iff.2 fun hblock => ?_
  rcases colon_or_dots_of_isBlock hblock with hcolon | hdots
  · exact h.1 hcolon
  · have := h.2
    omega

/-- What stands in front of the first mark of a block is hexadecimal. -/
theorem isBlock_of_first {t : Text} {digits rest : List Char} {c : Char}
    (h : t.chars = digits ++ c :: rest) (hdigits : ∀ d ∈ digits, isHexDigit d = true)
    (hc : isHexDigit c = false ∧ c ≠ ':' ∧ c ≠ '.') : isBlock t = false := by
  refine Bool.eq_false_iff.2 fun hblock => ?_
  obtain ⟨digits', mark, rest', h', hdigits', hmark⟩ := exists_digits_mark hblock
  have first : ∀ {ds : List Char} {d : Char} {r : List Char}, (∀ x ∈ ds, isHexDigit x = true) →
      isHexDigit d = false → (ds ++ d :: r).dropWhile isHexDigit = d :: r := by
    intro ds d r hds hd
    rw [List.dropWhile_append_of_pos hds, List.dropWhile_cons_of_neg (by simp [hd])]
  have hm : isHexDigit mark = false := by
    rcases hmark with rfl | rfl <;> decide
  have heq : c :: rest = mark :: rest' := by
    rw [← first hdigits hc.1, ← h, h', first hdigits' hm]
  rcases hmark with rfl | rfl
  · exact hc.2.1 (List.cons.inj heq).1
  · exact hc.2.2 (List.cons.inj heq).1

end Address

theorem isDigit_padded (width n : Nat) :
    ∀ c ∈ (Text.padded width n).toList, Address.isHexDigit c = true := by
  intro c hc
  rw [Text.padded, String.toList_append, String.toList_ofList, List.mem_append] at hc
  rcases hc with hc | hc
  · rw [List.eq_of_mem_replicate hc]
    decide
  · rw [Nat.toString_eq_repr, Nat.toList_repr] at hc
    have hd : c.isDigit = true := Nat.isDigit_of_mem_toDigits (by decide) (by decide) hc
    refine Address.isHexDigit_of_isDigit ?_
    simpa [Char.isDigit, Address.isDigit, Char.le_def] using hd

theorem exists_cons_quoted_tuple (ks : List Key) :
    ∃ rest, (Key.quoted (.tuple ks)).toList = '(' :: rest := by
  rw [Key.quoted]
  rcases Key.quotedAll ks with _ | ⟨a, _ | ⟨b, as⟩⟩
  · exact ⟨_, rfl⟩
  · exact ⟨_, by simp only [tupleText, String.toList_append]; rfl⟩
  · exact ⟨_, by simp only [tupleText, String.toList_append]; rfl⟩

theorem exists_cons_quoted_bytes (bs : List UInt8) :
    ∃ quote rest, (quote = '\x22' ∨ quote = '\x27') ∧
      (Quoted.bytes bs).toList = ['b'] ++ quote :: rest := by
  refine ⟨Quoted.mark (bs.contains 0x27) (bs.contains 0x22), _, ?_,
    by rw [Quoted.bytes, String.toList_ofList]; rfl⟩
  unfold Quoted.mark
  split
  · exact Or.inl rfl
  · exact Or.inr rfl

theorem exists_append_date (d : Date) :
    ∃ rest, d.text.toList = (Text.padded 4 d.year).toList ++ '-' :: rest := by
  refine ⟨(Text.padded 2 d.month ++ "-" ++ Text.padded 2 d.day).toList, ?_⟩
  simp [Date.text]

theorem exists_append_moment (m : Moment) :
    ∃ rest, (m.textWith " ").toList = (Text.padded 4 m.date.year).toList ++ '-' :: rest := by
  obtain ⟨rest, hrest⟩ := exists_append_date m.date
  have hprefix : ∃ time, m.textWith " " = m.date.text ++ time := by
    simp only [Moment.textWith, String.append_assoc]
    exact ⟨_, rfl⟩
  obtain ⟨time, htime⟩ := hprefix
  exact ⟨rest ++ time.toList, by rw [htime, String.toList_append, hrest]; simp⟩

/-- Of all values only a text is shown as an address block. -/
theorem exists_text_of_isBlock {key : Key} (h : Address.isBlock key.shown = true) :
    ∃ s, key = .text s := by
  have plain : ∀ {s : String}, Text.IsPlain s.toList → Address.isBlock (s : Text) = false := by
    intro s hs
    exact Address.isBlock_of_isPlain (by rwa [Text.ofString, Text.chars_ofChars])
  have first : ∀ {s : String} (digits : List Char) {c : Char} {rest : List Char},
      s.toList = digits ++ c :: rest → (∀ d ∈ digits, Address.isHexDigit d = true) →
      (Address.isHexDigit c = false ∧ c ≠ ':' ∧ c ≠ '.') →
      Address.isBlock (s : Text) = false := by
    intro s digits c rest hs
    exact Address.isBlock_of_first (by rw [Text.ofString, Text.chars_ofChars, hs])
  have refuted {P : Prop} (hfalse : Address.isBlock key.shown = false) : P := by
    rw [hfalse] at h
    cases h
  cases key with
  | tuple ks =>
    obtain ⟨rest, hrest⟩ := exists_cons_quoted_tuple ks
    exact refuted (first [] hrest (by simp) ⟨rfl, by decide, by decide⟩)
  | scalar s =>
    cases s with
    | null => exact refuted (plain (s := "None") (by decide))
    | bool b => cases b <;> exact refuted (plain (by decide))
    | int n => exact refuted (plain (hasNoMark_int n).isPlain)
    | float x => exact refuted (plain x.isPlain_text)
    | text s => exact ⟨s, rfl⟩
    | bytes bs =>
      obtain ⟨quote, rest, hquote, hrest⟩ := exists_cons_quoted_bytes bs
      have hb : ∀ d ∈ ['b'], Address.isHexDigit d = true := by
        intro d hd
        rw [List.mem_singleton.1 hd]
        rfl
      refine refuted (first ['b'] hrest hb ?_)
      rcases hquote with rfl | rfl
      · exact ⟨rfl, by decide, by decide⟩
      · exact ⟨rfl, by decide, by decide⟩
    | date d =>
      obtain ⟨rest, hrest⟩ := exists_append_date d
      exact refuted (first _ hrest (isDigit_padded 4 d.year) ⟨rfl, by decide, by decide⟩)
    | moment m =>
      obtain ⟨rest, hrest⟩ := exists_append_moment m
      exact refuted (first _ hrest (isDigit_padded 4 m.date.year) ⟨rfl, by decide, by decide⟩)

end AccessPolicy
