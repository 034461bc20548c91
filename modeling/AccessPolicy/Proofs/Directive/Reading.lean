import AccessPolicy.Directive.Limit
import AccessPolicy.Proofs.Text.Lines

/-!
# Reading limit blocks

A reader of limit blocks, one line after the other. `Reader.step` knows where it stands in a
section and accepts only the lines that may come there, and `read` gives the sections with
their operations and requirements, and the operations that the last section leaves out.

A limit block reads back as the groups it was made of, as long as no name holds a line feed
(`read_limitLines`) : `foldlM_groupSection` follows the reader through one section, and
`foldlM_limitLines` through all of them.
-/

namespace AccessPolicy.Directive

/-! ## The reader -/

/-- A section that admits whoever meets one of the requirements. -/
structure Section where
  operations : List Text
  requirements : List Text
deriving DecidableEq

/-- What a limit block says. -/
structure Reading where
  sections : List Section
  /-- Every operation but these is denied. -/
  excepted : List Text
deriving DecidableEq

/-- Where a reader stands. -/
inductive Place where
  | outside
  | opened (ops : List Text)
  | inside (ops requirements : List Text)
  | closing (ops requirements : List Text)
  | excepting (ops : List Text)
  | denied (ops : List Text)
  | finished (ops : List Text)
deriving DecidableEq

/-- A reader with the sections behind it. -/
structure Reader where
  read : List Section
  place : Place
deriving DecidableEq

/-- The rest of a line that starts with the given text. -/
def after? (head line : Text) : Option Text :=
  if head.isPrefixOf line then some (line.drop head.length) else none

/-- The words between the head of a line and the bracket at its end. -/
def wordsAfter? (head line : Text) : Option (List Text) :=
  match after? head line with
  | some rest =>
    if rest.getLast? = some (.char '>') then some (Text.split (.char ' ') rest.dropLast) else none
  | none => none

/-- Goes on if the line is the expected one. -/
def Reader.expect (r : Reader) (line expected : Text) (next : Place) : Option Reader :=
  if line = expected then some { r with place := next } else none

/-- One line. -/
def Reader.step (r : Reader) (line : Text) : Option Reader :=
  match r.place with
  | .outside =>
    match wordsAfter? "<Limit " line with
    | some ops => some { r with place := .opened ops }
    | none => (wordsAfter? "<LimitExcept " line).map fun ops => { r with place := .excepting ops }
  | .opened ops => r.expect line (indent ++ "<RequireAny>") (.inside ops [])
  | .inside ops requirements =>
    match after? (indent ++ indent) line with
    | some requirement => some { r with place := .inside ops (requirements ++ [requirement]) }
    | none => r.expect line (indent ++ "</RequireAny>") (.closing ops requirements)
  | .closing ops requirements =>
    if line = "</Limit>" then some ⟨r.read ++ [⟨ops, requirements⟩], .outside⟩ else none
  | .excepting ops => r.expect line (indent ++ "Require all denied") (.denied ops)
  | .denied ops => r.expect line "</LimitExcept>" (.finished ops)
  | .finished _ => none

/-- What the lines of a text say, if they are those of a limit block. -/
def read (t : Text) : Option Reading :=
  let lines := Text.split (.char '\n') t
  if lines.getLast? = some [] then
    match lines.dropLast.foldlM Reader.step ⟨[], .outside⟩ with
    | some ⟨sections, .finished ops⟩ => some ⟨sections, ops⟩
    | _ => none
  else none

/-! ## Single lines -/

theorem after?_append (head rest : Text) : after? head (head ++ rest) = some rest := by
  simp [after?]

theorem wordsAfter?_joined {head : Text} {words : List Text} (hne : words ≠ [])
    (h : ∀ w ∈ words, .char ' ' ∉ w) :
    wordsAfter? head (head ++ Text.joined " " words ++ ">") = some words := by
  have hlast : (Text.joined " " words ++ Text.ofString ">").getLast? = some (.char '>') := by
    simp [Text.ofString, Text.ofChars]
  have hdrop : (Text.joined " " words ++ Text.ofString ">").dropLast = Text.joined " " words :=
    List.dropLast_concat
  rw [wordsAfter?, List.append_assoc, after?_append]
  simp only [hlast, if_true, hdrop]
  exact congrArg some (Text.split_joined hne h)

variable {sections : List Section} {ops : List Text}

theorem step_limit (hne : ops ≠ []) (h : ∀ op ∈ ops, .char ' ' ∉ op) :
    Reader.step ⟨sections, .outside⟩ ("<Limit " ++ Text.joined " " ops ++ ">") =
      some ⟨sections, .opened ops⟩ := by
  simp only [Reader.step, wordsAfter?_joined hne h]

theorem step_except (hne : ops ≠ []) (h : ∀ op ∈ ops, .char ' ' ∉ op) :
    Reader.step ⟨sections, .outside⟩ ("<LimitExcept " ++ Text.joined " " ops ++ ">") =
      some ⟨sections, .excepting ops⟩ := by
  have hother : wordsAfter? "<Limit " ("<LimitExcept " ++ Text.joined " " ops ++ ">") = none :=
    rfl
  simp only [Reader.step, hother, wordsAfter?_joined hne h, Option.map_some]

theorem foldlM_requirements (requirements lines : List Text) :
    (lines.map fun line => indent ++ indent ++ line).foldlM Reader.step
        ⟨sections, .inside ops requirements⟩ =
      some ⟨sections, .inside ops (requirements ++ lines)⟩ := by
  induction lines generalizing requirements with
  | nil => simp
  | cons line lines ih =>
    have hstep : Reader.step ⟨sections, .inside ops requirements⟩ (indent ++ indent ++ line) =
        some ⟨sections, .inside ops (requirements ++ [line])⟩ := by
      simp only [Reader.step, after?_append]
    rw [List.map_cons, List.foldlM_cons, hstep]
    show (lines.map fun line => indent ++ indent ++ line).foldlM Reader.step _ = _
    rw [ih, List.append_assoc]
    rfl

theorem foldlM_limitSection {requirements : List Text} (hne : ops ≠ [])
    (h : ∀ op ∈ ops, .char ' ' ∉ op) :
    (limitSection ops requirements).foldlM Reader.step ⟨sections, .outside⟩ =
      some ⟨sections ++ [⟨ops, requirements⟩], .outside⟩ := by
  have hopen : Reader.step ⟨sections, .opened ops⟩ (indent ++ "<RequireAny>") =
      some ⟨sections, .inside ops []⟩ :=
    rfl
  have hclose : Reader.step ⟨sections, .inside ops requirements⟩ (indent ++ "</RequireAny>") =
      some ⟨sections, .closing ops requirements⟩ :=
    rfl
  have hend : Reader.step ⟨sections, .closing ops requirements⟩ "</Limit>" =
      some ⟨sections ++ [⟨ops, requirements⟩], .outside⟩ :=
    rfl
  simp only [limitSection, List.foldlM_append, List.foldlM_cons, List.foldlM_nil,
    Option.bind_eq_bind, Option.bind_some, Option.pure_def, step_limit hne h, hopen,
    foldlM_requirements, List.nil_append, hclose, hend]

theorem foldlM_exceptSection {names : List Text} (hne : Operations.canonical names ≠ [])
    (h : ∀ op ∈ Operations.canonical names, .char ' ' ∉ op) :
    (exceptSection names).foldlM Reader.step ⟨sections, .outside⟩ =
      some ⟨sections, .finished (Operations.canonical names)⟩ := by
  have hdeny : Reader.step ⟨sections, .excepting (Operations.canonical names)⟩
      (indent ++ "Require all denied") =
        some ⟨sections, .denied (Operations.canonical names)⟩ :=
    rfl
  have hend : Reader.step ⟨sections, .denied (Operations.canonical names)⟩ "</LimitExcept>" =
      some ⟨sections, .finished (Operations.canonical names)⟩ :=
    rfl
  simp only [exceptSection, List.foldlM_cons, List.foldlM_nil, Option.bind_eq_bind,
    Option.bind_some, Option.pure_def, step_except hne h, hdeny, hend]

/-! ## Whole blocks -/

/-- The section of a group as it is read. -/
def sectionOf (g : Group) : Section where
  operations := g.operations
  requirements := g.principals.map fun p => requireLine p.kind p.name

/-- The operations of the group are known ones, at least one. -/
def Group.IsKnown (g : Group) : Prop :=
  g.operations ≠ [] ∧ ∀ op ∈ g.operations, op ∈ AccessPolicy.operations

theorem not_mem_operation : ∀ op ∈ operations,
    CodePoint.char ' ' ∉ op ∧ CodePoint.char '\n' ∉ op := by
  decide

theorem foldlM_groupSection {g : Group} (h : Group.IsKnown g) :
    (groupSection g).foldlM Reader.step ⟨sections, .outside⟩ =
      some ⟨sections ++ [sectionOf g], .outside⟩ :=
  foldlM_limitSection h.1 fun op hop => (not_mem_operation op (h.2 op hop)).1

theorem foldlM_groupSections : ∀ {gs : List Group} {sections : List Section},
    (∀ g ∈ gs, Group.IsKnown g) →
      (gs.flatMap groupSection).foldlM Reader.step ⟨sections, .outside⟩ =
        some ⟨sections ++ gs.map sectionOf, .outside⟩
  | [], sections, _ => by simp
  | g :: gs, sections, h => by
    rw [List.flatMap_cons, List.foldlM_append, foldlM_groupSection (h g List.mem_cons_self)]
    show (gs.flatMap groupSection).foldlM Reader.step _ = _
    rw [foldlM_groupSections fun g hg => h g (List.mem_cons_of_mem _ hg), List.append_assoc]
    rfl

/-- The reader goes through a whole block, from section to section. -/
theorem foldlM_limitLines {gs : List Group} (hne : gs ≠ []) (h : ∀ g ∈ gs, Group.IsKnown g) :
    (limitLines gs).foldlM Reader.step ⟨[], .outside⟩ =
      some ⟨gs.map sectionOf, .finished (Operations.canonical (granted gs))⟩ := by
  obtain ⟨g, hg⟩ := List.exists_mem_of_ne_nil gs hne
  obtain ⟨op, hop⟩ := List.exists_mem_of_ne_nil _ (h g hg).1
  have hmem : op ∈ Operations.canonical (granted gs) := by
    simp only [Operations.canonical, List.mem_filter, List.contains_iff_mem]
    exact ⟨(h g hg).2 op hop, List.mem_flatMap.2 ⟨g, hg, hop⟩⟩
  rw [limitLines, List.foldlM_append, foldlM_groupSections h]
  exact foldlM_exceptSection (List.ne_nil_of_mem hmem) fun op hop =>
    (not_mem_operation op (List.mem_filter.1 hop).1).1

/-! ## Line feeds -/

theorem count_eq_zero_of_not_mem_joined {words : List Text}
    (h : ∀ w ∈ words, w ∈ operations) :
    (Text.joined " " words).count (.char '\n') = 0 :=
  List.count_eq_zero.2 <| Text.not_mem_joined (by decide) fun w hw =>
    (not_mem_operation w (h w hw)).2

theorem count_requireLine (c : PrincipalClass) (name : Text) :
    (requireLine c name).count (.char '\n') = name.count (.char '\n') := by
  have hword : (Text.ofString "Require ip ").count (.char '\n') = 0 ∧
      (Text.ofString "Require user ").count (.char '\n') = 0 ∧
      (Text.ofString "Require ldap-group ").count (.char '\n') = 0 := by
    decide
  obtain ⟨hip, huser, hgroup⟩ := hword
  cases c with
  | hosts => rw [requireLine, List.count_append, hip, Nat.zero_add]
  | users =>
    rw [requireLine]
    split
    · next hname =>
      rw [hname]
      decide
    · rw [List.count_append, huser, Nat.zero_add]
  | ldapGroups => rw [requireLine, List.count_append, hgroup, Nat.zero_add]

/-- The line feeds in the names of principals. -/
def feeds (ps : List Principal) : Nat :=
  (ps.map fun p => p.name.count (.char '\n')).sum

theorem sum_count_groupSection {g : Group} (h : Group.IsKnown g) :
    ((groupSection g).map fun line => line.count (.char '\n')).sum = feeds g.principals := by
  have hfixed : ("<Limit " : Text).count (.char '\n') = 0 ∧ (">" : Text).count (.char '\n') = 0 ∧
      indent.count (.char '\n') = 0 ∧ ("<RequireAny>" : Text).count (.char '\n') = 0 ∧
      ("</RequireAny>" : Text).count (.char '\n') = 0 ∧
      ("</Limit>" : Text).count (.char '\n') = 0 := by
    decide
  obtain ⟨h₁, h₂, h₃, h₄, h₅, h₆⟩ := hfixed
  simp only [groupSection, limitSection, List.map_append, List.sum_append, List.map_cons,
    List.map_nil, List.sum_cons, List.sum_nil, List.count_append, List.map_map,
    Function.comp_def, count_eq_zero_of_not_mem_joined h.2, count_requireLine, h₁, h₂, h₃, h₄, h₅,
    h₆, feeds, Nat.zero_add, Nat.add_zero]

theorem sum_count_exceptSection (names : List Text) :
    ((exceptSection names).map fun line => line.count (.char '\n')).sum = 0 := by
  have hfixed : ("<LimitExcept " : Text).count (.char '\n') = 0 ∧
      (">" : Text).count (.char '\n') = 0 ∧
      (indent ++ "Require all denied").count (.char '\n') = 0 ∧
      ("</LimitExcept>" : Text).count (.char '\n') = 0 := by
    decide
  obtain ⟨h₁, h₂, h₃, h₄⟩ := hfixed
  have hops : (Text.joined " " (Operations.canonical names)).count (.char '\n') = 0 :=
    count_eq_zero_of_not_mem_joined fun w hw => (List.mem_filter.1 hw).1
  simp only [exceptSection, List.map_cons, List.map_nil, List.sum_cons, List.sum_nil, h₃, h₄]
  simp only [List.count_append, h₁, h₂, hops, Nat.add_zero]

/-- All line feeds within the lines of a block stand in names. -/
theorem sum_count_limitLines {gs : List Group} (h : ∀ g ∈ gs, Group.IsKnown g) :
    ((limitLines gs).map fun line => line.count (.char '\n')).sum =
      feeds (gs.flatMap Group.principals) := by
  have sections : ∀ {gs : List Group}, (∀ g ∈ gs, Group.IsKnown g) →
      ((gs.flatMap groupSection).map fun line => line.count (.char '\n')).sum =
        feeds (gs.flatMap Group.principals) := by
    intro gs h
    induction gs with
    | nil => rfl
    | cons g gs ih =>
      rw [List.flatMap_cons, List.map_append, List.sum_append,
        sum_count_groupSection (h g List.mem_cons_self),
        ih fun g hg => h g (List.mem_cons_of_mem _ hg)]
      simp [feeds]
  rw [limitLines, List.map_append, List.sum_append, sections h, sum_count_exceptSection,
    Nat.add_zero]

theorem length_limitLines (gs : List Group) :
    (limitLines gs).length = (gs.flatMap Group.principals).length + 4 * gs.length + 3 := by
  have sections : (gs.flatMap groupSection).length =
      (gs.flatMap Group.principals).length + 4 * gs.length := by
    induction gs with
    | nil => rfl
    | cons g gs ih =>
      simp only [List.flatMap_cons, List.length_append, ih, groupSection, limitSection,
        List.length_map, List.length_cons, List.length_nil]
      omega
  rw [limitLines, List.length_append, sections]
  rfl

/-- The lines of a block : one for each principal, four for each group, three at the end, and
one more for every line feed in a name. -/
theorem count_limitLines {gs : List Group} (h : ∀ g ∈ gs, Group.IsKnown g) :
    (Text.ofLines (limitLines gs)).count (.char '\n') =
      (gs.flatMap Group.principals).length + 4 * gs.length + 3 +
        feeds (gs.flatMap Group.principals) := by
  rw [Text.count_ofLines, length_limitLines, sum_count_limitLines h]

theorem feeds_eq_zero_iff {ps : List Principal} :
    feeds ps = 0 ↔ ∀ p ∈ ps, CodePoint.char '\n' ∉ p.name := by
  simp [feeds, List.sum_eq_zero_iff_forall_eq_nat, List.count_eq_zero]

/-- A text is read as its lines are. -/
theorem read_ofLines {lines : List Text} (hlines : ∀ line ∈ lines, CodePoint.char '\n' ∉ line)
    (hread : lines.foldlM Reader.step ⟨[], .outside⟩ = some ⟨sections, .finished ops⟩) :
    read (Text.ofLines lines) = some ⟨sections, ops⟩ := by
  have hlast : (lines ++ [[]]).getLast? = some ([] : Text) := by simp
  have hdrop : (lines ++ [[]]).dropLast = lines := List.dropLast_concat
  simp only [read, Text.split_ofLines hlines, hlast, hdrop, if_true, hread]

/-- A block reads back as the groups it was made of. -/
theorem read_limitLines {gs : List Group} (hne : gs ≠ []) (h : ∀ g ∈ gs, Group.IsKnown g)
    (hnames : feeds (gs.flatMap Group.principals) = 0) :
    read (Text.ofLines (limitLines gs)) =
      some ⟨gs.map sectionOf, Operations.canonical (granted gs)⟩ := by
  have hlines : ∀ line ∈ limitLines gs, CodePoint.char '\n' ∉ line := by
    intro line hline
    have hsum := (sum_count_limitLines h).trans hnames
    rw [List.sum_eq_zero_iff_forall_eq_nat] at hsum
    exact List.count_eq_zero.1 (hsum _ (List.mem_map_of_mem hline))
  exact read_ofLines hlines (foldlM_limitLines hne h)

end AccessPolicy.Directive
