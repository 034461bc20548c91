import AccessPolicy.Document.Json
import Mathlib.Algebra.Ring.Nat
import Mathlib.Tactic.SplitIfs

/-!
# Reading JSON back

A reader of JSON objects whose members are texts, and what it reads of objects that are
written. `Json.Scan.step` goes over the characters one by one and splits them into marks and
texts, in which it resolves the escapes; `Json.readTexts?` reads the members from these.

A character beyond U+FFFF is written as two escapes, one for each half, and two halves that
come one after the other are read as one character. So what is read of a text is the text with
its pairs of halves put together (`Json.readTexts?_mapping`), and a text without halves is read
as it is (`Json.joinPairs_ofChars`).
-/

namespace AccessPolicy.Json

/-! ## The reader -/

/-- The text with pairs of halves put together. Any other half stays. -/
def joinPairs : Text → Text
  | [] => []
  | [a] => [a]
  | a :: b :: rest =>
    match Text.paired? a b with
    | some c => .char c :: joinPairs rest
    | none => a :: joinPairs (b :: rest)

/-- What a JSON object with texts is made of. -/
inductive Token where
  | mark (c : Char)
  | text (s : Text)

/-- Where the reader is : outside a text, or inside one of which these code points were read. -/
inductive Mode where
  | outside
  | inside (s : Text)
  /-- After a backslash. -/
  | escaped (s : Text)
  /-- Among the digits of an escape, of which this many and one come. -/
  | unit (s : Text) (left number : Nat)

/-- What was read so far. -/
structure Scan where
  tokens : List Token
  mode : Mode

def marks : List Char := ['\x7b', '\x7d', ':', ',']

def blanks : List Char := [' ', '\n', '\r', '\t']

/-- The character that a letter after a backslash stands for. -/
def escaped? (c : Char) : Option Char :=
  ([('\x22', '\x22'), ('\\', '\\'), ('/', '/'), ('b', '\x08'), ('f', '\x0c'), ('n', '\n'),
    ('r', '\r'), ('t', '\t')] : List (Char × Char)).lookup c

/-- Reads a hexadecimal digit of an escape. The last one ends it. -/
def Scan.digit (tokens : List Token) (s : Text) (left number d : Nat) : Scan :=
  match left with
  | 0 => ⟨tokens, .inside (s ++ [.ofNat (number * 16 + d)])⟩
  | left + 1 => ⟨tokens, .unit s left (number * 16 + d)⟩

/-- Reads one character. -/
def Scan.step (x : Scan) (c : Char) : Option Scan :=
  match x.mode with
  | .outside =>
    if c = '\x22' then some ⟨x.tokens, .inside []⟩
    else if c ∈ marks then some ⟨x.tokens ++ [.mark c], .outside⟩
    else if c ∈ blanks then some x
    else none
  | .inside s =>
    if c = '\x22' then some ⟨x.tokens ++ [.text (joinPairs s)], .outside⟩
    else if c = '\\' then some ⟨x.tokens, .escaped s⟩
    else if 0x20 ≤ c.toNat then some ⟨x.tokens, .inside (s ++ [.char c])⟩
    else none
  | .escaped s =>
    if c = 'u' then some ⟨x.tokens, .unit s 3 0⟩
    else (escaped? c).map fun d => ⟨x.tokens, .inside (s ++ [.char d])⟩
  | .unit s left number =>
    match Text.digitValue? c with
    | some d => if d < 16 then some (.digit x.tokens s left number d) else none
    | none => none

/-- Reads characters one after the other. -/
def scan (x : Scan) (cs : List Char) : Option Scan :=
  cs.foldlM Scan.step x

/-- The members of an object, up to its end. -/
def members? : List Token → Option (List (Text × Text))
  | [.text k, .mark ':', .text v, .mark '\x7d'] => some [(k, v)]
  | .text k :: .mark ':' :: .text v :: .mark ',' :: rest => (members? rest).map ((k, v) :: ·)
  | _ => none

/-- The object that tokens make. -/
def object? : List Token → Option (List (Text × Text))
  | [.mark '\x7b', .mark '\x7d'] => some []
  | .mark '\x7b' :: rest => members? rest
  | _ => none

/-- The members of the JSON object that the characters are, where all of them are texts. -/
def readTexts? (cs : List Char) : Option (List (Text × Text)) :=
  match scan ⟨[], .outside⟩ cs with
  | some ⟨tokens, .outside⟩ => object? tokens
  | _ => none

/-! ## Code points -/

theorem ofNat_char (c : Char) : CodePoint.ofNat c.toNat = .char c := by
  have hvalid : c.toNat < 0xD800 ∨ 0xDFFF < c.toNat ∧ c.toNat < 0x110000 := c.valid
  rw [CodePoint.ofNat, dif_neg (by omega), Char.ofNat_toNat]

theorem ofNat_half (n : Fin 0x800) : CodePoint.ofNat (0xD800 + n) = .half n := by
  have hn := n.isLt
  rw [CodePoint.ofNat, dif_pos (by omega)]
  exact congrArg CodePoint.half (Fin.ext (Nat.add_sub_cancel_left _ _))

/-- The code points that are read for one that was written. -/
def units : CodePoint → Text
  | .char c =>
    if c.toNat < 0x10000 then [.char c]
    else
      [.ofNat (0xD800 + (c.toNat - 0x10000) / 0x400),
        .ofNat (0xDC00 + (c.toNat - 0x10000) % 0x400)]
  | .half n => [.half n]

/-- A character beyond U+FFFF is read as its halves. -/
theorem exists_halves {c : Char} (hc : ¬ c.toNat < 0x10000) :
    ∃ a b : Fin 0x800, units (.char c) = [.half a, .half b] ∧ a < 0x400 ∧
      Text.paired? (.half a) (.half b) = some c := by
  have hvalid : c.toNat < 0xD800 ∨ 0xDFFF < c.toNat ∧ c.toNat < 0x110000 := c.valid
  obtain ⟨n, hn⟩ : ∃ n, c.toNat = 0x10000 + n := ⟨c.toNat - 0x10000, by omega⟩
  have hfirst : n / 0x400 < 0x400 := by omega
  have hsecond : 0x400 ≤ 0x400 + n % 0x400 := by omega
  refine ⟨⟨n / 0x400, by omega⟩, ⟨0x400 + n % 0x400, by omega⟩, ?_, hfirst, ?_⟩
  · rw [units, if_neg hc, hn, Nat.add_sub_cancel_left, ← ofNat_half, ← ofNat_half]
    simp only [← Nat.add_assoc]
  · rw [Text.paired?, if_pos ⟨hfirst, hsecond⟩, Option.some_inj]
    have hnumber : 0x10000 + n / 0x400 * 0x400 + (0x400 + n % 0x400 - 0x400) = c.toNat := by omega
    rw [hnumber, Char.ofNat_toNat]

/-! ## Pairs of halves -/

theorem joinPairs_char_cons (c : Char) (s : Text) :
    joinPairs (.char c :: s) = .char c :: joinPairs s := by
  cases s <;> rfl

theorem joinPairs_ofChars : ∀ cs : List Char, joinPairs (Text.ofChars cs) = Text.ofChars cs
  | [] => rfl
  | c :: cs => by
    change joinPairs (.char c :: Text.ofChars cs) = .char c :: Text.ofChars cs
    rw [joinPairs_char_cons, joinPairs_ofChars cs]

theorem joinPairs_of_paired {a b : CodePoint} {c : Char} (h : Text.paired? a b = some c)
    (s : Text) : joinPairs (a :: b :: s) = .char c :: joinPairs s := by
  rw [joinPairs, h]

theorem joinPairs_of_not_paired {a b : CodePoint} (h : Text.paired? a b = none) (s : Text) :
    joinPairs (a :: b :: s) = a :: joinPairs (b :: s) := by
  rw [joinPairs, h]

/-- A half that makes no pair with a code point makes none with what is read of it. -/
theorem exists_units_cons {n : Fin 0x800} {b : CodePoint}
    (h : Text.paired? (.half n) b = none) :
    ∃ u s, units b = u :: s ∧ Text.paired? (.half n) u = none := by
  cases b with
  | half m => exact ⟨_, _, rfl, h⟩
  | char c =>
    by_cases hc : c.toNat < 0x10000
    · exact ⟨.char c, [], if_pos hc, rfl⟩
    · obtain ⟨a, b, hunits, ha, -⟩ := exists_halves hc
      refine ⟨_, _, hunits, ?_⟩
      rw [Text.paired?, if_neg fun hab => absurd ha (Fin.not_lt.2 hab.2)]

theorem joinPairs_units_char (c : Char) (s : Text) :
    joinPairs (units (.char c) ++ s) = .char c :: joinPairs s := by
  by_cases hc : c.toNat < 0x10000
  · rw [units, if_pos hc]
    exact joinPairs_char_cons c s
  · obtain ⟨a, b, hunits, -, hpaired⟩ := exists_halves hc
    rw [hunits]
    exact joinPairs_of_paired hpaired s

/-- What is read of a text has the pairs that the text has. -/
theorem joinPairs_units (s : Text) : joinPairs (s.flatMap units) = joinPairs s := by
  induction s using joinPairs.induct with
  | case1 => rfl
  | case2 a =>
    cases a with
    | char c => exact joinPairs_units_char c []
    | half n => rfl
  | case3 a b rest c h ih =>
    cases a with
    | char _ => cases h
    | half n =>
      cases b with
      | char _ => cases h
      | half m =>
        rw [joinPairs_of_paired h, ← ih]
        exact joinPairs_of_paired h _
  | case4 a b rest h ih =>
    cases a with
    | char c => rw [List.flatMap_cons, joinPairs_units_char, ih, joinPairs_char_cons]
    | half n =>
      obtain ⟨u, s, hunits, hnone⟩ := exists_units_cons h
      rw [joinPairs_of_not_paired h, ← ih, List.flatMap_cons, List.flatMap_cons, hunits]
      exact joinPairs_of_not_paired hnone _

/-! ## Texts -/

variable {x y z : Scan} {tokens : List Token} {s : Text}

theorem scan_append {as bs : List Char} (has : scan x as = some y) (hbs : scan y bs = some z) :
    scan x (as ++ bs) = some z := by
  rw [scan, List.foldlM_append, ← scan, has]
  exact hbs

theorem scan_cons {c : Char} {cs : List Char} (hc : x.step c = some y) (hcs : scan y cs = some z) :
    scan x (c :: cs) = some z := by
  rw [scan, List.foldlM_cons, hc]
  exact hcs

theorem step_hexDigit (tokens : List Token) (s : Text) (left number : Nat) {d : Nat}
    (hd : d < 16) :
    (Scan.mk tokens (.unit s left number)).step (Text.hexDigit d) =
      some (.digit tokens s left number d) := by
  have hvalue : ∀ d < 16, Text.digitValue? (Text.hexDigit d) = some d := by decide
  simp only [Scan.step, hvalue d hd, if_pos hd]

/-- The digits of a number carry on from what was read before them. -/
theorem scan_hex (tokens : List Token) (s : Text) (w left number n : Nat) :
    scan ⟨tokens, .unit s (left + w) number⟩ (Text.hex w n) =
      some ⟨tokens, .unit s left (number * 16 ^ w + n % 16 ^ w)⟩ := by
  induction w generalizing left n with
  | zero => simp [Text.hex, scan, Nat.mod_one]
  | succ w ih =>
    have hdigits := ih (left + 1) (n / 16)
    have hdigit := step_hexDigit tokens s (left + 1)
      (number * 16 ^ w + n / 16 % 16 ^ w) (Nat.mod_lt n (by omega : 0 < 16))
    have hnumber : number * 16 ^ (w + 1) + n % 16 ^ (w + 1) =
        (number * 16 ^ w + n / 16 % 16 ^ w) * 16 + n % 16 := by
      rw [Nat.pow_succ', Nat.mod_mul, Nat.mul_left_comm]
      omega
    rw [Text.hex, hnumber, ← Nat.add_assoc, Nat.add_right_comm]
    exact scan_append hdigits (scan_cons hdigit rfl)

/-- An escape of a number is read as the code point of the number. -/
theorem scan_unitEscape (tokens : List Token) (s : Text) {n : Nat} (hn : n < 0x10000) :
    scan ⟨tokens, .inside s⟩ (unitEscape n) = some ⟨tokens, .inside (s ++ [.ofNat n])⟩ := by
  have hdigits := scan_hex tokens s 3 0 0 (n / 16)
  have hdigit := step_hexDigit tokens s 0
    (0 * 16 ^ 3 + n / 16 % 16 ^ 3) (Nat.mod_lt n (by omega : 0 < 16))
  have hnumber : (0 * 16 ^ 3 + n / 16 % 16 ^ 3) * 16 + n % 16 = n := by omega
  rw [Scan.digit, hnumber] at hdigit
  exact scan_cons rfl (scan_cons rfl (scan_append hdigits (scan_cons hdigit rfl)))

/-- A character that is written as a backslash and a letter. -/
theorem scan_escaped {c d : Char} (hc : c ≠ 'u') (h : escaped? c = some d)
    (hd : d.toNat < 0x10000) :
    scan ⟨tokens, .inside s⟩ ['\\', c] = some ⟨tokens, .inside (s ++ units (.char d))⟩ := by
  refine scan_cons rfl (scan_cons ?_ rfl)
  simp only [Scan.step, if_neg hc, h, Option.map_some, units, if_pos hd]

/-- What is written for a character is read as the character, or as its halves. -/
theorem scan_escapeChar (c : Char) :
    scan ⟨tokens, .inside s⟩ (escapeChar c) = some ⟨tokens, .inside (s ++ units (.char c))⟩ := by
  unfold escapeChar
  split_ifs with hquote hline hreturn htab hback hfeed hascii hunit
  · rcases hquote with rfl | rfl
    · exact scan_escaped (by decide) rfl (by decide)
    · exact scan_escaped (by decide) rfl (by decide)
  · exact hline ▸ scan_escaped (by decide) rfl (by decide)
  · exact hreturn ▸ scan_escaped (by decide) rfl (by decide)
  · exact htab ▸ scan_escaped (by decide) rfl (by decide)
  · exact hback ▸ scan_escaped (by decide) rfl (by decide)
  · exact hfeed ▸ scan_escaped (by decide) rfl (by decide)
  · rw [not_or] at hquote
    refine scan_cons ?_ rfl
    rw [units, if_pos (by omega)]
    simp only [Scan.step, if_neg hquote.1, if_neg hquote.2, if_pos hascii.1]
  · rw [units, if_pos hunit, ← ofNat_char]
    exact scan_unitEscape tokens s hunit
  · have hvalid : c.toNat < 0xD800 ∨ 0xDFFF < c.toNat ∧ c.toNat < 0x110000 := c.valid
    rw [units, if_neg hunit, List.append_cons]
    exact scan_append (scan_unitEscape tokens s (by omega)) (scan_unitEscape tokens _ (by omega))

theorem scan_escape (a : CodePoint) :
    scan ⟨tokens, .inside s⟩ (escape a) = some ⟨tokens, .inside (s ++ units a)⟩ := by
  cases a with
  | char c => exact scan_escapeChar c
  | half n =>
    have hn := n.isLt
    have hread := scan_unitEscape tokens s (n := 0xD800 + n) (by omega)
    rwa [ofNat_half] at hread

theorem scan_flatMap_escape (x : Text) :
    scan ⟨tokens, .inside s⟩ (x.flatMap escape) =
      some ⟨tokens, .inside (s ++ x.flatMap units)⟩ := by
  induction x generalizing s with
  | nil => simp [scan]
  | cons a x ih =>
    rw [List.flatMap_cons, List.flatMap_cons, ← List.append_assoc]
    exact scan_append (scan_escape a) ih

/-- A JSON string is read as the text, with its pairs of halves put together. -/
theorem scan_string (x : Text) :
    scan ⟨tokens, .outside⟩ (string x).toList =
      some ⟨tokens ++ [.text (joinPairs x)], .outside⟩ := by
  have hclose : (Scan.mk tokens (.inside (x.flatMap units))).step '\x22' =
      some ⟨tokens ++ [.text (joinPairs x)], .outside⟩ := by
    rw [← joinPairs_units x]
    rfl
  rw [string, String.toList_ofList]
  exact scan_cons rfl (scan_append (scan_flatMap_escape x) (scan_cons hclose rfl))

/-! ## Objects -/

theorem scan_newline (level : Nat) :
    scan ⟨tokens, .outside⟩ (newline level).toList = some ⟨tokens, .outside⟩ := by
  have hspaces : ∀ n, scan ⟨tokens, .outside⟩ (List.replicate n ' ') = some ⟨tokens, .outside⟩ := by
    intro n
    induction n with
    | zero => rfl
    | succ n ih => exact scan_cons rfl ih
  rw [newline, String.toList_ofList]
  exact scan_cons rfl (hspaces _)

/-- The entries of a mapping of texts. -/
def textEntries (es : List (Text × Text)) : Entries :=
  es.map fun e => (.text e.1, .text e.2)

/-- The tokens of a member. -/
def memberTokens (e : Text × Text) : List Token :=
  [.text (joinPairs e.1), .mark ':', .text (joinPairs e.2)]

/-- The members of an object from one on, after what stands in front of it. -/
def membersText (level : Nat) (front : String) (es : List (Text × Text)) : Written :=
  entries level front (Document.jsonEntries level (textEntries es))

theorem membersText_nil (level : Nat) (front : String) :
    membersText level front [] = ⟨"", none⟩ :=
  rfl

theorem membersText_cons (level : Nat) (front : String) (e : Text × Text)
    (es : List (Text × Text)) :
    membersText level front (e :: es) =
      ⟨front ++ string e.1 ++ ": " ++ ("" ++ string e.2) ++
        (membersText level ("," ++ newline level) es).text,
        (membersText level ("," ++ newline level) es).fault⟩ :=
  rfl

theorem scan_member (e : Text × Text) {front : String} {before : List Token}
    (hfront : ∀ tokens, scan ⟨tokens, .outside⟩ front.toList =
      some ⟨tokens ++ before, .outside⟩) (tokens : List Token) :
    scan ⟨tokens, .outside⟩ (front ++ string e.1 ++ ": " ++ ("" ++ string e.2)).toList =
      some ⟨tokens ++ before ++ memberTokens e, .outside⟩ := by
  have hcolon : ∀ tokens, scan ⟨tokens, .outside⟩ ": ".toList =
      some ⟨tokens ++ [.mark ':'], .outside⟩ := fun _ => rfl
  have hmember := scan_append (scan_append (scan_append (hfront tokens) (scan_string e.1))
    (hcolon _)) (scan_string e.2)
  simpa [memberTokens] using hmember

/-- The members have a form, and are read one after the other. -/
theorem scan_membersText (level : Nat) (e : Text × Text) (es : List (Text × Text))
    {front : String} {before : List Token} (hfront : ∀ tokens,
      scan ⟨tokens, .outside⟩ front.toList = some ⟨tokens ++ before, .outside⟩)
    (tokens : List Token) :
    (membersText level front (e :: es)).fault = none ∧
      scan ⟨tokens, .outside⟩ (membersText level front (e :: es)).text.toList =
        some ⟨tokens ++ before ++ memberTokens e ++
          es.flatMap fun e => .mark ',' :: memberTokens e, .outside⟩ := by
  induction es generalizing e front before tokens with
  | nil =>
    refine ⟨rfl, ?_⟩
    simpa [membersText_cons, membersText_nil] using scan_member e hfront tokens
  | cons e' es ih =>
    have hcomma : ∀ tokens, scan ⟨tokens, .outside⟩ ("," ++ newline level).toList =
        some ⟨tokens ++ [.mark ','], .outside⟩ := by
      intro tokens
      rw [String.toList_append]
      exact scan_cons rfl (scan_newline level)
    obtain ⟨hfault, hrest⟩ := ih e' hcomma (tokens ++ before ++ memberTokens e)
    refine ⟨hfault, ?_⟩
    rw [membersText_cons, String.toList_append]
    refine (scan_append (scan_member e hfront tokens) hrest).trans ?_
    simp

/-- The members that the tokens of an object make. -/
theorem members?_tokens (e : Text × Text) (es : List (Text × Text)) :
    members? (memberTokens e ++ (es.flatMap fun e => .mark ',' :: memberTokens e) ++
      [.mark '\x7d']) = some ((e :: es).map fun e => (joinPairs e.1, joinPairs e.2)) := by
  induction es generalizing e with
  | nil => rfl
  | cons e' es ih =>
    have hrest := ih e'
    simp only [memberTokens, List.flatMap_cons, List.cons_append, List.nil_append]
      at hrest ⊢
    rw [members?, hrest]
    rfl

theorem json_textEntries_cons (e : Text × Text) (es : List (Text × Text)) :
    (Document.mapping (textEntries (e :: es))).json =
      .after ("" ++ "\x7b" ++ newline 1)
        ((membersText 1 "" (e :: es)).andThen ⟨newline 0 ++ "\x7d", none⟩) :=
  rfl

/-- A mapping of texts is written, and its members are read back with their pairs of halves put
together. -/
theorem readTexts?_mapping (es : List (Text × Text)) :
    (Document.mapping (textEntries es)).json.fault = none ∧
      readTexts? ((Document.mapping (textEntries es)).json.text ++ "\n").toList =
        some (es.map fun e => (joinPairs e.1, joinPairs e.2)) := by
  cases es with
  | nil => exact ⟨rfl, rfl⟩
  | cons e es =>
    have hnothing : ∀ tokens,
        scan ⟨tokens, .outside⟩ "".toList = some ⟨tokens ++ [], .outside⟩ := by
      intro tokens
      rw [List.append_nil]
      rfl
    obtain ⟨hfault, hmembers⟩ := scan_membersText 1 e es hnothing [.mark '\x7b']
    rw [json_textEntries_cons, Written.andThen, hfault, Option.isNone_none, if_pos rfl]
    refine ⟨rfl, ?_⟩
    have hopen : scan ⟨[], .outside⟩ ("" ++ "\x7b" ++ newline 1).toList =
        some ⟨[.mark '\x7b'], .outside⟩ := by
      rw [String.toList_append]
      exact scan_cons rfl (scan_newline 1)
    have hclose : ∀ tokens, scan ⟨tokens, .outside⟩ (newline 0 ++ "\x7d" ++ "\n").toList =
        some ⟨tokens ++ [.mark '\x7d'], .outside⟩ := by
      intro tokens
      rw [String.append_assoc, String.toList_append]
      exact scan_append (scan_newline 0) rfl
    have hscan := scan_append hopen (scan_append hmembers (hclose _))
    have htext : (("" ++ "\x7b" ++ newline 1 ++ ((membersText 1 "" (e :: es)).text ++
        (newline 0 ++ "\x7d"))) ++ "\n").toList = ("" ++ "\x7b" ++ newline 1).toList ++
          ((membersText 1 "" (e :: es)).text.toList ++ (newline 0 ++ "\x7d" ++ "\n").toList) := by
      simp only [String.toList_append, List.append_assoc]
    rw [readTexts?, Written.after, htext, hscan]
    exact members?_tokens e es

/-- Other spellings are read as well : blanks elsewhere, capital digits, escapes that the writer
does not use. -/
example : readTexts? "\x7b\"a\" :\"\\uD83D\\ude00\\/\"\x7d".toList =
    some ([("a", "😀/")] : List (Text × Text)) := by
  decide +kernel

end AccessPolicy.Json
