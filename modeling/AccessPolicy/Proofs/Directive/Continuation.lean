import AccessPolicy.Proofs.Directive.Limit

/-!
# Limit blocks and continued lines

A reader that takes a backslash directly before a line feed as a mark that the line goes on
(`Text.logicalLines`) sees the lines of a text if and only if the mark is nowhere in it
(`Text.logicalLines_eq_iff`). In a limit block it can only come from the name of a principal, by
standing in the name or by the name's last character (`marked_limitLines_iff`).

`reads_as_cut_iff` : the lines of a limit block are what such a reader sees if and only if no
name ends in a backslash and none has the mark. The validator admits both : a user or a group
whose name ends in a backslash, and a host whose zone holds any text. `swallowed_line` is a block
whose user has the next line for the rest of its own.
-/

namespace AccessPolicy

/-! ## Continued lines -/

namespace Text

/-- What marks a line that goes on : a backslash directly before the line feed. -/
def continuation : Text := [.char '\\', .char '\n']

/-- The text without the marks of lines that go on. -/
def unfolded : Text → Text
  | [] => []
  | [c] => [c]
  | c :: d :: t => if [c, d] = continuation then unfolded t else c :: unfolded (d :: t)

/-- The lines of a text for a reader that follows the marks. -/
def logicalLines (t : Text) : List Text :=
  split (.char '\n') (unfolded t)

theorem continuation_prefix_iff {c d : CodePoint} {t : Text} :
    continuation <+: c :: d :: t ↔ [c, d] = continuation := by
  simp only [continuation, List.cons_prefix_cons, List.nil_prefix, and_true, List.cons.injEq]
  exact ⟨fun ⟨hc, hd⟩ => ⟨hc.symm, hd.symm⟩, fun ⟨hc, hd⟩ => ⟨hc.symm, hd.symm⟩⟩

theorem unfolded_of_not_infix : ∀ {t : Text}, ¬ continuation <:+: t → unfolded t = t
  | [], _ => rfl
  | [_], _ => rfl
  | c :: d :: t, h => by
    rw [List.infix_cons_iff, continuation_prefix_iff, not_or] at h
    rw [unfolded, if_neg h.1, unfolded_of_not_infix h.2]

theorem length_unfolded_le : ∀ t : Text, (unfolded t).length ≤ t.length
  | [] => Nat.le_refl _
  | [_] => Nat.le_refl _
  | c :: d :: t => by
    have hshort := length_unfolded_le t
    have hlong := length_unfolded_le (d :: t)
    rw [unfolded]
    split <;> simp only [List.length_cons] at hlong ⊢ <;> omega

/-- Without its marks a text is shorter. -/
theorem length_unfolded_lt : ∀ {t : Text}, continuation <:+: t →
    (unfolded t).length < t.length
  | [], h => absurd (List.infix_nil.1 h) (by decide)
  | [c], h => absurd h.length_le (by simp [continuation])
  | c :: d :: t, h => by
    rw [unfolded]
    split
    · have := length_unfolded_le t
      simp only [List.length_cons]
      omega
    · next hne =>
      have hrest := (List.infix_cons_iff.1 h).resolve_left (hne ∘ continuation_prefix_iff.1)
      have := length_unfolded_lt hrest
      simp only [List.length_cons] at this ⊢
      omega

theorem split_injective (separator : CodePoint) :
    Function.Injective fun t : Text => split separator t := by
  intro s t h
  rw [← intercalate_split separator s, ← intercalate_split separator t]
  exact congrArg _ h

/-- The reader sees the lines that there are if and only if no mark is there. -/
theorem logicalLines_eq_iff {t : Text} :
    logicalLines t = split (.char '\n') t ↔ ¬ continuation <:+: t := by
  constructor
  · intro h hmark
    have := congrArg List.length (split_injective (.char '\n') h)
    have := length_unfolded_lt hmark
    omega
  · intro h
    rw [logicalLines, unfolded_of_not_infix h]

/-! ## Marks -/

/-- A mark in two texts one after the other stands in one of them, if the first does not end in
a backslash. -/
theorem continuation_infix_append {s t : Text} (h : s.getLast? ≠ some (.char '\\')) :
    continuation <:+: s ++ t ↔ continuation <:+: s ∨ continuation <:+: t := by
  rw [List.infix_append_iff]
  constructor
  · rintro (hs | ht | ⟨u, v, heq, hu, hv⟩)
    · exact .inl hs
    · exact .inr ht
    · match u, heq with
      | [], heq => exact .inr (heq ▸ hv.isInfix)
      | [c], heq =>
        obtain ⟨s', rfl⟩ := hu
        obtain ⟨rfl, -⟩ := List.cons.inj heq
        exact absurd List.getLast?_concat h
      | c :: d :: u, heq =>
        have hnil : u ++ v = [] := (List.cons.inj (List.cons.inj heq).2).2.symm
        rw [(List.append_eq_nil_iff.1 hnil).2, List.append_nil] at heq
        exact .inl (heq ▸ hu.isInfix)
  · rintro (hs | ht)
    · exact .inl hs
    · exact .inr (.inl ht)

/-- The line ends at the line feed behind it. -/
def Ends (line : Text) : Prop :=
  ¬ continuation <:+: line ++ [.char '\n']

theorem ends_iff {line : Text} :
    Ends line ↔ line.getLast? ≠ some (.char '\\') ∧ ¬ continuation <:+: line := by
  rw [Ends, List.infix_concat_iff, not_or, Ne, List.getLast?_eq_some_iff]
  refine and_congr_left' (not_congr ⟨fun ⟨u, hu⟩ => ⟨u, ?_⟩, fun ⟨u, hu⟩ => ⟨u, ?_⟩⟩)
  · have hconcat : (u ++ [.char '\\']) ++ [.char '\n'] = line ++ [.char '\n'] := by
      simpa [continuation] using hu
    exact (List.append_cancel_right hconcat).symm
  · rw [hu, List.append_assoc]
    rfl

theorem ends_of_not_mem {line : Text} (h : CodePoint.char '\\' ∉ line) : Ends line :=
  ends_iff.2 ⟨fun hlast => h (List.mem_of_getLast? hlast),
    fun hmark => h (hmark.subset List.mem_cons_self)⟩

/-- What stands before a line and has no backslash does not change where it ends. -/
theorem ends_append {head line : Text} (h : CodePoint.char '\\' ∉ head) :
    Ends (head ++ line) ↔ Ends line := by
  obtain ⟨hlast, hhead⟩ := ends_iff.1 (ends_of_not_mem h)
  rw [Ends, List.append_assoc, continuation_infix_append hlast, not_or]
  exact and_iff_right hhead

/-- A text of lines has no mark if and only if all of them end where they are cut. -/
theorem not_continuation_infix_ofLines : ∀ {lines : List Text},
    ¬ continuation <:+: ofLines lines ↔ ∀ line ∈ lines, Ends line
  | [] => by simp [ofLines, continuation]
  | line :: lines => by
    have hlast : (line ++ [CodePoint.char '\n']).getLast? ≠ some (.char '\\') := by
      rw [List.getLast?_concat]
      decide
    rw [ofLines, List.append_cons, continuation_infix_append hlast, not_or,
      not_continuation_infix_ofLines, List.forall_mem_cons]
    rfl

end Text

namespace Directive

open Validation
open Text (Ends logicalLines)

/-! ## Lines of limit blocks -/

theorem ends_requireLine (c : PrincipalClass) (name : Text) :
    Ends (requireLine c name) ↔ Ends name := by
  cases c with
  | hosts => exact Text.ends_append (by decide)
  | users =>
    rw [requireLine]
    split
    · next hname =>
      subst hname
      exact iff_of_true (Text.ends_of_not_mem (by decide)) (Text.ends_of_not_mem (by decide))
    · exact Text.ends_append (by decide)
  | ldapGroups => exact Text.ends_append (by decide)

/-- The line that opens a section ends, as no operation has a backslash. -/
theorem ends_opening {head : Text} (hhead : CodePoint.char '\\' ∉ head) {ops : List Text}
    (hops : ∀ op ∈ ops, op ∈ operations) : Ends (head ++ Text.joined " " ops ++ ">") := by
  have hnone : ∀ op ∈ operations, CodePoint.char '\\' ∉ op := by decide
  have hblank : CodePoint.char '\\' ∉ (" " : Text) := by decide
  have hjoined := Text.not_mem_joined hblank fun op hop => hnone op (hops op hop)
  rw [List.append_assoc, Text.ends_append hhead, Text.ends_append hjoined]
  exact Text.ends_of_not_mem (by decide)

/-- The lines of a group end if its names do. -/
theorem ends_groupSection_iff {g : Group} (h : Group.IsKnown g) :
    (∀ line ∈ groupSection g, Ends line) ↔ ∀ p ∈ g.principals, Ends p.name := by
  have hrequire : ∀ p : Principal,
      Ends (indent ++ indent ++ requireLine p.kind p.name) ↔ Ends p.name := fun p => by
    rw [Text.ends_append (by decide), ends_requireLine]
  have hhead : Ends ("<Limit " ++ Text.joined " " g.operations ++ ">") :=
    ends_opening (by decide) h.2
  have hany : Ends (indent ++ "<RequireAny>") := Text.ends_of_not_mem (by decide)
  have hall : Ends (indent ++ "</RequireAny>") := Text.ends_of_not_mem (by decide)
  have hend : Ends "</Limit>" := Text.ends_of_not_mem (by decide)
  simp only [groupSection, limitSection, List.forall_mem_append, List.forall_mem_cons,
    List.forall_mem_map, hrequire, hhead, hany, hall, hend, List.not_mem_nil, false_implies,
    implies_true, true_and, and_true]

theorem ends_exceptSection (ops : List Text) : ∀ line ∈ exceptSection ops, Ends line := by
  have hhead : Ends ("<LimitExcept " ++ Text.joined " " (Operations.canonical ops) ++ ">") :=
    ends_opening (by decide) fun op hop => (Operations.mem_canonical.1 hop).1
  exact List.forall_mem_cons.2 ⟨hhead, List.forall_mem_cons.2
    ⟨Text.ends_of_not_mem (by decide),
      List.forall_mem_singleton.2 (Text.ends_of_not_mem (by decide))⟩⟩

/-- All lines of a limit block end if the names do. -/
theorem ends_limitLines_iff {gs : List Group} (h : ∀ g ∈ gs, Group.IsKnown g) :
    (∀ line ∈ limitLines gs, Ends line) ↔ ∀ p ∈ gs.flatMap Group.principals, Ends p.name := by
  rw [limitLines, List.forall_mem_append, and_iff_left (ends_exceptSection _),
    List.forall_mem_flatMap, List.forall_mem_flatMap]
  exact forall₂_congr fun g hg => ends_groupSection_iff (h g hg)

section Compiled

variable {override defaults realm : Document} (ho : override.DistinctKeys)
  (hd : defaults.IsBase) {b : Blocks} (hb : Policy.compile override defaults realm = .ok b)

include ho hd hb

/-- A reader that follows the marks sees the lines of a limit block if and only if no name ends
in a backslash, and none has a backslash directly before a line feed. -/
theorem reads_as_cut_iff : logicalLines b.limits = Text.split (.char '\n') b.limits ↔
    ∀ e ∈ grantsOf (Policy.limitEntries override defaults),
      e.1.name.getLast? ≠ some (.char '\\') ∧ ¬ Text.continuation <:+: e.1.name := by
  obtain ⟨hvalid, hlimits⟩ := Policy.limitBlock_of_compile ho hd.distinctKeys hb
  have haccepted : AcceptedLimits (Policy.limitEntries override defaults) :=
    (accepted_of_validate hvalid).limits
  obtain ⟨gs, hgrouping, hknown, hblock⟩ := exists_limitBlock haccepted
  rw [hblock, Except.ok.injEq] at hlimits
  rw [Text.logicalLines_eq_iff, ← hlimits]
  simp only [← Text.ends_iff]
  split
  · next hnil =>
    rw [hnil]
    exact iff_of_true (by decide) (List.forall_mem_nil _)
  · rw [Text.not_continuation_infix_ofLines, ends_limitLines_iff hknown]
    simp only [(perm_principals hgrouping).mem_iff, List.forall_mem_map]

end Compiled

/-- With names and a zone that have no backslash. -/
theorem reads_as_cut_mixedOverride : ∃ b, Policy.compile mixedOverride .null .null = .ok b ∧
    logicalLines b.limits = Text.split (.char '\n') b.limits := by
  have hvalid : (Policy.merged mixedOverride .null).validate = .ok () :=
    validate_eq_ok_iff.2 (by decide +kernel)
  obtain ⟨b, hb⟩ := exists_compile distinctKeys_mixedOverride (.scalar .null) hvalid (Or.inl rfl)
  refine ⟨b, hb, (reads_as_cut_iff distinctKeys_mixedOverride (Document.isBase_scalar _) hb).2 ?_⟩
  decide +kernel

/-- One user, by the defaults. -/
def userOverride (name : String) : Document :=
  .mapping (namedEntries [("limits", .mapping (namedEntries [
    ("users", .mapping (namedEntries [(name, .text defaultsWord)]))]))])

/-- A user name that ends in a backslash is accepted, and the line after its own is lost. -/
theorem swallowed_line : ∃ b, Policy.compile (userOverride "alice\\") .null .null = .ok b ∧
    Text.ofString "    </RequireAny>" ∉ logicalLines b.limits ∧
    Text.ofString "    </RequireAny>" ∈ Text.split (.char '\n') b.limits ∧
    logicalLines b.limits ≠ Text.split (.char '\n') b.limits := by
  have hlines : ((Policy.compile (userOverride "alice\\") .null .null).toOption.map fun b =>
      ((logicalLines b.limits).contains "    </RequireAny>",
        (Text.split (.char '\n') b.limits).contains "    </RequireAny>")) =
      some (false, true) := by
    decide +kernel
  obtain ⟨b, hb, hline⟩ := exists_ok_of_map_toOption hlines
  obtain ⟨hlost, hcut⟩ := Prod.mk.inj hline
  have hlost : Text.ofString "    </RequireAny>" ∉ logicalLines b.limits := fun hmem => by
    rw [List.contains_iff_mem.2 hmem] at hlost
    cases hlost
  have hcut := List.contains_iff_mem.1 hcut
  exact ⟨b, hb, hlost, hcut, fun heq => hlost (heq ▸ hcut)⟩

end Directive

end AccessPolicy
