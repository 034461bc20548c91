import AccessPolicy.Address
import AccessPolicy.Proofs.Text.Lines

/-!
# The texts that name address blocks

What an accepted address block looks like. It starts with hexadecimal digits and then a
colon or a dot (`exists_digits_mark`), and it holds a colon or three dots
(`colon_or_dots_of_isBlock`); by these two a block is told from every other kind of value. All
its characters are visible ASCII, except that the zone of an address of version 6 may hold
anything but a slash and a percent sign (`visible_or_mem_zone`).
-/

namespace AccessPolicy.Address

/-- The character is a visible ASCII character or the space. -/
def IsVisible (c : Char) : Prop :=
  0x20 ≤ c.toNat ∧ c.toNat < 0x7F

instance (c : Char) : Decidable (IsVisible c) :=
  inferInstanceAs (Decidable (_ ∧ _))

/-- The character may stand in an address outside of its zone. -/
def IsAddressChar (c : Char) : Prop :=
  isHexDigit c = true ∨ c = ':' ∨ c = '.'

theorem isHexDigit_of_isDigit {c : Char} (h : isDigit c = true) : isHexDigit c = true := by
  simp [isHexDigit, h]

theorem toNat_le_of_le {c d : Char} (h : c ≤ d) : c.toNat ≤ d.toNat :=
  UInt32.le_iff_toNat_le.1 h

theorem isVisible_of_isHexDigit {c : Char} (h : isHexDigit c = true) : IsVisible c := by
  have h0 : ('0' : Char).toNat = 48 := rfl
  have h9 : ('9' : Char).toNat = 57 := rfl
  have ha : ('a' : Char).toNat = 97 := rfl
  have hf : ('f' : Char).toNat = 102 := rfl
  have hA : ('A' : Char).toNat = 65 := rfl
  have hF : ('F' : Char).toNat = 70 := rfl
  simp only [isHexDigit, isDigit, Bool.or_eq_true, Bool.and_eq_true, decide_eq_true_eq] at h
  unfold IsVisible
  rcases h with (⟨h₁, h₂⟩ | ⟨h₁, h₂⟩) | ⟨h₁, h₂⟩ <;>
    · have := toNat_le_of_le h₁
      have := toNat_le_of_le h₂
      omega

theorem IsAddressChar.isVisible {c : Char} (h : IsAddressChar c) : IsVisible c := by
  rcases h with h | rfl | rfl
  · exact isVisible_of_isHexDigit h
  · decide
  · decide

/-! ## Version 4 -/

theorem isDigit_of_octet? {cs : List Char} (h : (octet? cs).isSome) :
    cs ≠ [] ∧ ∀ c ∈ cs, isDigit c = true := by
  unfold octet? at h
  split at h
  · simp at h
  · next hc =>
    simp only [Bool.or_eq_true, Bool.not_eq_true', decide_eq_true_eq, not_or,
      Bool.not_eq_false, List.all_eq_true, List.isEmpty_iff] at hc
    exact ⟨hc.1.1, hc.1.2⟩

theorem split_of_dotted? {cs : List Char} (h : (dotted? cs).isSome) :
    ∃ a b c d, Text.split '.' cs = [a, b, c, d] ∧
      ∀ p ∈ [a, b, c, d], p ≠ [] ∧ ∀ x ∈ p, isDigit x = true := by
  unfold dotted? at h
  split at h
  · next a b c d hs =>
    rw [List.map_eq_cons_iff] at hs
    obtain ⟨a', ps, hsplit, ha, hs⟩ := hs
    rw [List.map_eq_cons_iff] at hs
    obtain ⟨b', ps', rfl, hb, hs⟩ := hs
    rw [List.map_eq_cons_iff] at hs
    obtain ⟨c', ps'', rfl, hc, hs⟩ := hs
    rw [List.map_eq_cons_iff] at hs
    obtain ⟨d', ps''', rfl, hd, hs⟩ := hs
    obtain rfl := List.map_eq_nil_iff.1 hs
    refine ⟨a', b', c', d', hsplit, fun p hp => isDigit_of_octet? ?_⟩
    simp only [List.mem_cons, List.not_mem_nil, or_false] at hp
    rcases hp with rfl | rfl | rfl | rfl
    · simp [ha]
    · simp [hb]
    · simp [hc]
    · simp [hd]
  · simp at h

theorem isDigit_or_dot_of_dotted? {cs : List Char} (h : (dotted? cs).isSome) :
    ∀ c ∈ cs, isDigit c = true ∨ c = '.' := by
  intro c hc
  obtain ⟨p, q, r, s, hsplit, hdigits⟩ := split_of_dotted? h
  by_cases hdot : c = '.'
  · exact Or.inr hdot
  · obtain ⟨piece, hp, hmem⟩ := Text.mem_of_mem_split hc hdot
    rw [hsplit] at hp
    exact Or.inl ((hdigits piece hp).2 c hmem)

/-- An address in dotted decimal has three dots. -/
theorem count_dot_of_dotted? {cs : List Char} (h : (dotted? cs).isSome) :
    3 ≤ cs.count '.' := by
  obtain ⟨p, q, r, s, hsplit, -⟩ := split_of_dotted? h
  rw [← Text.intercalate_split '.' cs, hsplit]
  simp only [List.intercalate, List.intersperse, List.flatten_cons, List.flatten_nil,
    List.count_append, List.count_singleton_self, List.append_nil]
  omega

theorem isAddressChar_of_dotted? {cs : List Char} (h : (dotted? cs).isSome) :
    ∀ c ∈ cs, IsAddressChar c := by
  intro c hc
  rcases isDigit_or_dot_of_dotted? h c hc with hd | rfl
  · exact Or.inl (isHexDigit_of_isDigit hd)
  · exact Or.inr (Or.inr rfl)

/-! ## Version 6 -/

theorem isHexDigit_of_isHextet {cs : List Char} (h : isHextet cs = true) :
    ∀ c ∈ cs, isHexDigit c = true := by
  simp only [isHextet, Bool.and_eq_true, List.all_eq_true] at h
  exact h.2

theorem isHextet_of_isSide {pieces : List (List Char)} (h : isSide pieces = true) :
    ∀ p ∈ pieces, p = [] ∨ isHextet p = true := by
  unfold isSide at h
  split at h
  · simp
  · exact fun p hp => Or.inr (List.all_eq_true.1 h p hp)

/-- A piece is a hextet, or empty where the gap is. -/
theorem isHextet_of_isColonPieces {pieces : List (List Char)}
    (h : isColonPieces pieces = true) : ∀ p ∈ pieces, p = [] ∨ isHextet p = true := by
  intro p hp
  unfold isColonPieces at h
  split at h
  · simp only [Bool.and_eq_true, List.all_eq_true] at h
    exact Or.inr (h.2 p hp)
  · next i hi =>
    simp only [Bool.and_eq_true] at h
    obtain ⟨⟨hupper, hlower⟩, -⟩ := h
    have hcut : pieces = pieces.take (i + 1) ++ pieces.drop (i + 1) := by simp
    rw [hcut, List.mem_append] at hp
    rcases hp with hp | hp
    · exact isHextet_of_isSide hupper p hp
    · -- the piece behind the upper side is the gap
      rw [List.findIdx?_eq_some_iff_getElem] at hi
      obtain ⟨hlt, hempty, -⟩ := hi
      simp only [List.length_dropLast, List.length_drop] at hlt
      have hgap : pieces[i + 1] = [] := by
        simpa [List.getElem_dropLast, List.getElem_drop, Nat.add_comm 1 i] using hempty
      rw [List.drop_eq_getElem_cons (by omega), hgap, List.mem_cons] at hp
      rcases hp with rfl | hp
      · exact Or.inl rfl
      · exact isHextet_of_isSide hlower p hp

theorem isAddressChar_of_isColon {cs : List Char} (h : isColon cs = true) :
    ∀ c ∈ cs, IsAddressChar c := by
  intro c hc
  by_cases hcolon : c = ':'
  · exact Or.inr (Or.inl hcolon)
  obtain ⟨p, hp, hmem⟩ := Text.mem_of_mem_split hc hcolon
  have hextet : ∀ {q : List Char}, c ∈ q → (q = [] ∨ isHextet q = true) → IsAddressChar c := by
    rintro q hq (rfl | hq')
    · simp at hq
    · exact Or.inl (isHexDigit_of_isHextet hq' c hq)
  simp only [isColon, Bool.and_eq_true] at h
  obtain ⟨-, h⟩ := h
  split at h
  · next pieces hpieces =>
    simp only [Bool.and_eq_true] at h
    have hall := isHextet_of_isColonPieces h.2
    simp only [colonPieces?] at hpieces
    split at hpieces
    · split at hpieces
      · next hdot hdotted =>
        obtain rfl := Option.some.inj hpieces
        have hne := Text.split_ne_nil ':' cs
        rw [← List.dropLast_concat_getLast hne, List.mem_append, List.mem_singleton] at hp
        rcases hp with hp | rfl
        · exact hextet hmem (hall p (List.mem_append_left _ hp))
        · rw [List.getLastD_eq_getLast?, List.getLast?_eq_some_getLast hne,
            Option.getD_some] at hdotted
          exact isAddressChar_of_dotted? hdotted c hmem
      · cases hpieces
    · obtain rfl := Option.some.inj hpieces
      exact hextet hmem (hall p hp)
  · cases h

theorem colon_mem_of_isColon {cs : List Char} (h : isColon cs = true) : ':' ∈ cs := by
  refine Decidable.byContradiction fun hnot => ?_
  simp only [isColon, Bool.and_eq_true, decide_eq_true_eq] at h
  have := h.1
  rw [Text.split_of_not_mem hnot] at this
  simp at this

/-- An address of version 6, and behind a percent sign its zone. -/
theorem exists_zone_of_isZoned {cs : List Char} (h : isZoned cs = true) :
    ∃ address, isColon address = true ∧
      (cs = address ∨ ∃ zone, cs = address ++ '%' :: zone) := by
  unfold isZoned at h
  split at h
  · next address hs => exact ⟨address, h, Or.inl (Text.eq_of_split_eq_singleton hs)⟩
  · next address zone hs =>
    simp only [Bool.and_eq_true] at h
    exact ⟨address, h.1, Or.inr ⟨zone, Text.eq_of_split_eq_pair hs⟩⟩
  · cases h

/-! ## Blocks -/

/-- The parts of a block : an address, behind a percent sign its zone, and behind a slash the
length or the mask. -/
structure Parts (cs address zone size : List Char) : Prop where
  append_eq : cs = address ++ (zone ++ size)
  address_chars : ∀ c ∈ address, IsAddressChar c
  address_marks : ':' ∈ address ∨ 3 ≤ address.count '.'
  zone_mark : zone = [] ∨ ∃ z, zone = '%' :: z
  slash_not_mem_zone : '/' ∉ zone
  size_mark : size = [] ∨ ∃ s, size = '/' :: s
  size_chars : ∀ c ∈ size, IsVisible c

theorem not_mem_of_isAddressChar {cs : List Char} (h : ∀ c ∈ cs, IsAddressChar c) {d : Char}
    (hd : ¬IsAddressChar d) : d ∉ cs :=
  fun hmem => hd (h d hmem)

/-- The parts of a text that is an address, followed by a size. -/
theorem exists_parts_append {cs : List Char} (hslash : '/' ∉ cs)
    (h : (dotted? cs).isSome ∨ isZoned cs = true) (size : List Char)
    (hmark : size = [] ∨ ∃ s, size = '/' :: s) (hsize : ∀ c ∈ size, IsVisible c) :
    ∃ address zone, Parts (cs ++ size) address zone size := by
  rcases h with h | h
  · exact ⟨cs, [], by simp, isAddressChar_of_dotted? h, Or.inr (count_dot_of_dotted? h),
      Or.inl rfl, by simp, hmark, hsize⟩
  · obtain ⟨address, hcolon, hcs⟩ := exists_zone_of_isZoned h
    have hchars := isAddressChar_of_isColon hcolon
    have hmem := colon_mem_of_isColon hcolon
    rcases hcs with rfl | ⟨zone, rfl⟩
    · exact ⟨cs, [], by simp, hchars, Or.inl hmem, Or.inl rfl, by simp, hmark, hsize⟩
    · refine ⟨address, '%' :: zone, by simp, hchars, Or.inl hmem, Or.inr ⟨zone, rfl⟩, ?_, hmark,
        hsize⟩
      exact fun hz => hslash (List.mem_append_right _ hz)

theorem isVisible_of_isLength {limit : Nat} {cs : List Char} (h : isLength limit cs = true) :
    ∀ c ∈ cs, IsVisible c := by
  simp only [isLength, Bool.and_eq_true, List.all_eq_true] at h
  exact fun c hc => isVisible_of_isHexDigit (isHexDigit_of_isDigit (h.1.2 c hc))

theorem isVisible_of_isDottedMask {cs : List Char} (h : isDottedMask cs = true) :
    ∀ c ∈ cs, IsVisible c := by
  have hd : (dotted? cs).isSome := by
    unfold isDottedMask at h
    split at h
    · next n hn => simp [hn]
    · cases h
  exact fun c hc => (isAddressChar_of_dotted? hd c hc).isVisible

theorem exists_parts_of_isBlock {t : Text} (h : isBlock t = true) :
    ∃ address zone size, Parts t.chars address zone size := by
  unfold isBlock at h
  have noSlash : ∀ {p : List Char}, p ∈ Text.split '/' t.chars → '/' ∉ p :=
    Text.not_mem_of_mem_split
  split at h
  · next p hs =>
    rw [hs] at noSlash
    obtain ⟨address, zone, hp⟩ := exists_parts_append (noSlash List.mem_cons_self)
      (by simpa using h) [] (Or.inl rfl) (by simp)
    rw [Text.eq_of_split_eq_singleton hs]
    exact ⟨address, zone, [], by simpa using hp⟩
  · next p size hs =>
    rw [hs] at noSlash
    have haddress : (dotted? p).isSome ∨ isZoned p = true := by
      simp only [Bool.or_eq_true, Bool.and_eq_true] at h
      rcases h with h | h
      · exact Or.inl h.1
      · exact Or.inr h.1
    have hsize : ∀ c ∈ size, IsVisible c := by
      simp only [Bool.or_eq_true, Bool.and_eq_true] at h
      rcases h with ⟨-, h | h⟩ | ⟨-, h⟩
      · exact isVisible_of_isLength h
      · exact isVisible_of_isDottedMask h
      · exact isVisible_of_isLength h
    obtain ⟨address, zone, hp⟩ := exists_parts_append (noSlash List.mem_cons_self) haddress
      ('/' :: size) (Or.inr ⟨size, rfl⟩) (by simpa using ⟨by decide, hsize⟩)
    rw [Text.eq_of_split_eq_pair hs]
    exact ⟨address, zone, '/' :: size, hp⟩
  · cases h

/-- A block starts with hexadecimal digits and then a colon or a dot. -/
theorem exists_digits_mark {t : Text} (h : isBlock t = true) :
    ∃ digits mark rest, t.chars = digits ++ mark :: rest ∧
      (∀ c ∈ digits, isHexDigit c = true) ∧ (mark = ':' ∨ mark = '.') := by
  obtain ⟨address, zone, size, hp⟩ := exists_parts_of_isBlock h
  have hcut := List.takeWhile_append_dropWhile (p := isHexDigit) (l := address)
  cases hrest : address.dropWhile isHexDigit with
  | nil =>
    -- without a mark the address would be digits only
    rw [hrest, List.append_nil] at hcut
    have hall : ∀ c ∈ address, isHexDigit c = true := by
      rw [← hcut]
      exact List.all_eq_true.1 List.all_takeWhile
    rcases hp.address_marks with hm | hm
    · exact absurd (hall _ hm) (by decide)
    · have : '.' ∈ address := List.count_pos_iff.1 (by omega)
      exact absurd (hall _ this) (by decide)
  | cons mark rest =>
    rw [hrest] at hcut
    have hmark : ¬isHexDigit mark = true := by
      have := List.head?_dropWhile_not isHexDigit address
      simpa [hrest] using this
    refine ⟨address.takeWhile isHexDigit, mark, rest ++ (zone ++ size), ?_,
      List.all_eq_true.1 List.all_takeWhile, ?_⟩
    · calc t.chars = address ++ (zone ++ size) := hp.append_eq
        _ = address.takeWhile isHexDigit ++ mark :: rest ++ (zone ++ size) := by rw [hcut]
        _ = _ := by simp
    · have hmem : mark ∈ address := hcut ▸ List.mem_append_right _ List.mem_cons_self
      exact (hp.address_chars mark hmem).resolve_left hmark

/-- A block holds a colon or three dots. -/
theorem colon_or_dots_of_isBlock {t : Text} (h : isBlock t = true) :
    ':' ∈ t.chars ∨ 3 ≤ t.chars.count '.' := by
  obtain ⟨address, zone, size, hp⟩ := exists_parts_of_isBlock h
  rw [hp.append_eq]
  rcases hp.address_marks with hm | hm
  · exact Or.inl (List.mem_append_left _ hm)
  · right
    rw [List.count_append]
    omega

/-! ## Zones -/

/-- What stands between the percent sign and the slash. -/
def zone (t : Text) : Text :=
  ((t.takeWhile (· != .char '/')).dropWhile (· != .char '%')).drop 1

theorem mem_of_mem_zone {t : Text} {c : CodePoint} (h : c ∈ zone t) : c ∈ t :=
  (List.takeWhile_sublist _).subset
    ((List.dropWhile_sublist _).subset (List.mem_of_mem_drop h))

theorem eq_char_of_character_eq {p : CodePoint} {c : Char} (h : p.character = c)
    (hc : IsVisible c) : p = .char c := by
  cases p with
  | char d => exact congrArg CodePoint.char h
  | half n =>
    rw [← show CodePoint.character (.half n) = c from h] at hc
    exact absurd hc.2 (by simp only [CodePoint.character]; decide)

theorem isVisible_of_character {cs : List Char} (h : ∀ c ∈ cs, IsVisible c) {t : Text}
    (ht : t.chars = cs) : ∀ p ∈ t, ∃ c, p = .char c ∧ IsVisible c := by
  intro p hp
  have hv : IsVisible p.character := h _ (ht ▸ List.mem_map_of_mem hp)
  exact ⟨p.character, eq_char_of_character_eq rfl hv, hv⟩

theorem not_mem_of_chars {c : Char} {cs : List Char} (h : c ∉ cs) {t : Text}
    (ht : t.chars = cs) : .char c ∉ t :=
  fun hmem => h (ht ▸ List.mem_map.2 ⟨.char c, hmem, rfl⟩)

theorem takeWhile_append_of_mark {t u : Text} {c : CodePoint} (ht : c ∉ t)
    (hu : u = [] ∨ ∃ u', u = c :: u') : (t ++ u).takeWhile (· != c) = t := by
  have hall : ∀ d ∈ t, (d != c) = true := fun d hd => by
    simpa using fun h : d = c => ht (h ▸ hd)
  rw [List.takeWhile_append_of_pos hall]
  rcases hu with rfl | ⟨u', rfl⟩ <;> simp

theorem dropWhile_append_of_mark {t u : Text} {c : CodePoint} (ht : c ∉ t)
    (hu : u = [] ∨ ∃ u', u = c :: u') : (t ++ u).dropWhile (· != c) = u := by
  have hall : ∀ d ∈ t, (d != c) = true := fun d hd => by
    simpa using fun h : d = c => ht (h ▸ hd)
  rw [List.dropWhile_append_of_pos hall]
  rcases hu with rfl | ⟨u', rfl⟩ <;> simp

/-- A text that starts with a character as its first mark, read back from its characters. -/
theorem mark_of_chars {c : Char} (hc : IsVisible c) {cs : List Char}
    (h : cs = [] ∨ ∃ cs', cs = c :: cs') {t : Text} (ht : t.chars = cs) :
    t = [] ∨ ∃ t', t = .char c :: t' := by
  cases t with
  | nil => exact Or.inl rfl
  | cons p t =>
    right
    rcases h with rfl | ⟨cs', rfl⟩
    · simp [Text.chars] at ht
    · simp only [Text.chars, List.map_cons, List.cons.injEq] at ht
      exact ⟨t, by rw [eq_char_of_character_eq ht.1 hc]⟩

/-- Whatever a block holds beside visible characters stands in its zone. -/
theorem visible_or_mem_zone {t : Text} (h : isBlock t = true) :
    ∀ p ∈ t, (∃ c, p = .char c ∧ IsVisible c) ∨ p ∈ zone t := by
  obtain ⟨address, z, size, hp⟩ := exists_parts_of_isBlock h
  obtain ⟨ta, tr, rfl, hta, htr⟩ := List.map_eq_append_iff.1 hp.append_eq
  obtain ⟨tz, ts, rfl, htz, hts⟩ := List.map_eq_append_iff.1 htr
  have hslash : ∀ {cs : List Char} {t : Text}, '/' ∉ cs → t.chars = cs → .char '/' ∉ t :=
    fun h ht => not_mem_of_chars h ht
  have hzone : zone (ta ++ (tz ++ ts)) = tz.drop 1 := by
    have hfirst : (ta ++ (tz ++ ts)).takeWhile (· != .char '/') = ta ++ tz := by
      rw [← List.append_assoc]
      refine takeWhile_append_of_mark ?_ (mark_of_chars (by decide) hp.size_mark hts)
      rw [List.mem_append, not_or]
      exact ⟨hslash (not_mem_of_isAddressChar hp.address_chars (by unfold IsAddressChar; decide))
        hta, hslash hp.slash_not_mem_zone htz⟩
    rw [zone, hfirst, dropWhile_append_of_mark
      (not_mem_of_chars (not_mem_of_isAddressChar hp.address_chars
        (by unfold IsAddressChar; decide)) hta)
      (mark_of_chars (by decide) hp.zone_mark htz)]
  intro p hmem
  rw [hzone]
  rcases List.mem_append.1 hmem with hmem | hmem
  · exact Or.inl (isVisible_of_character (fun c hc => (hp.address_chars c hc).isVisible) hta p
      hmem)
  rcases List.mem_append.1 hmem with hmem | hmem
  · rcases mark_of_chars (by decide) hp.zone_mark htz with rfl | ⟨tz', rfl⟩
    · simp at hmem
    · rcases List.mem_cons.1 hmem with rfl | hmem
      · exact Or.inl ⟨'%', rfl, by decide⟩
      · exact Or.inr hmem
  · exact Or.inl (isVisible_of_character hp.size_chars hts p hmem)

end AccessPolicy.Address
