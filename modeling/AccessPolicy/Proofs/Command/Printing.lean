import Mathlib.Data.List.TakeWhile
import AccessPolicy.Command.Report
import AccessPolicy.Proofs.Result
import AccessPolicy.Proofs.Text.Lines

/-!
# What the standard output takes

Every output takes characters, so only a text with halves may be refused. JSON is made of
characters, and so is what is printed about a valid policy (`takes_of_validate`) : the path of its
file is that of words of the command line, the environment and the program. Blocks and the paths
of a directory that a file names may have halves.
-/

namespace AccessPolicy.Command

namespace Surroundings

variable {s : Surroundings} {texts : List Text} {code : Nat}

/-! ## Texts -/

theorem takes_iff {t : Text} : s.takes t = true ↔ ∀ n, .half n ∈ t → s.takesHalf n = true := by
  rw [takes, List.all_eq_true]
  refine ⟨fun h n hn => h _ hn, fun h c hc => ?_⟩
  cases c with
  | char c => rfl
  | half n => exact h n hc

theorem takes_of_subset {t u : Text} (h : t ⊆ u) (hu : s.takes u = true) : s.takes t = true :=
  takes_iff.2 fun n hn => takes_iff.1 hu n (h hn)

@[simp]
theorem takes_append (t u : Text) : s.takes (t ++ u) = (s.takes t && s.takes u) :=
  List.all_append

@[simp]
theorem takes_ofString (x : String) : s.takes x = true := by
  simp [takes_iff, Text.ofString, Text.ofChars]

theorem takes_joined {separator : Text} {words : List Text} (hseparator : s.takes separator = true)
    (h : ∀ w ∈ words, s.takes w = true) : s.takes (Text.joined separator words) = true := by
  rw [takes_iff]
  intro n hn
  by_contra hnot
  have hnone : ∀ {t : Text}, s.takes t = true → CodePoint.half n ∉ t :=
    fun ht hmem => hnot (takes_iff.1 ht n hmem)
  exact Text.not_mem_joined (hnone hseparator) (fun w hw => hnone (h w hw)) hn

/-! ## Paths -/

/-- The standard output takes what the path is made of. -/
structure TakesParts (s : Surroundings) (p : Path) : Prop where
  root : s.takes p.root = true
  names : ∀ name ∈ p.names, s.takes name = true

theorem TakesParts.text {p : Path} (h : TakesParts s p) : s.takes p.text = true := by
  unfold Path.text
  split_ifs
  · exact takes_ofString _
  · rw [takes_append, h.root, takes_joined (takes_ofString _) h.names]
    rfl

theorem takes_rootOf (t : Text) : s.takes (Path.rootOf t) = true := by
  unfold Path.rootOf
  split
  · exact takes_ofString _
  · exact takes_ofString _
  · exact takes_ofString _
  · rfl

theorem takesParts_ofText (x : String) : TakesParts s (.ofText x) where
  root := takes_rootOf _
  names _ h :=
    takes_of_subset (Text.subset_of_mem_split (List.mem_filter.1 h).1) (takes_ofString x)

theorem TakesParts.child {p : Path} (h : TakesParts s p) {name : Text}
    (hname : s.takes name = true) : TakesParts s (p.child name) where
  root := h.root
  names n hn := by
    rcases List.mem_append.1 hn with hn | hn
    · exact h.names n hn
    · exact List.mem_singleton.1 hn ▸ hname

theorem TakesParts.parent {p : Path} (h : TakesParts s p) : TakesParts s p.parent where
  root := h.root
  names n hn := h.names n (List.dropLast_subset _ hn)

/-! ## Printing -/

theorem ending_of_takes (h : texts.all s.takes = true) : s.ending texts code = .ok code :=
  if_pos h

theorem ending_eq_ok_iff {code' : Nat} :
    s.ending texts code = .ok code' ↔ texts.all s.takes = true ∧ code = code' := by
  unfold ending
  split_ifs with h
  · simp [h]
  · simp [h]

theorem printed_of_takes (h : texts.all s.takes = true) : s.printed texts = Text.ofLines texts := by
  rw [printed, List.takeWhile_eq_self_iff.2 (List.all_eq_true.1 h)]

end Surroundings

variable {r : Request} {s : Surroundings} {t : FileTree} {texts : List Text}

theorem takes_jsonTexts (es : Entries) : (jsonTexts es).all s.takes = true := by
  simp [jsonTexts]

theorem takes_policyTexts {p : Path} (policy : Policy) (h : s.takes p.text = true) :
    (policyTexts p policy).all s.takes = true := by
  have hkinds : ∀ w ∈ policy.methods.enabled.map MethodKind.name, s.takes w = true := by
    intro w hw
    obtain ⟨kind, -, rfl⟩ := List.mem_map.1 hw
    cases kind <;> exact Surroundings.takes_ofString _
  have hclass : ∀ c : PrincipalClass, s.takes c.name = true := by
    intro c
    cases c <;> exact Surroundings.takes_ofString _
  simp only [policyTexts, List.all_cons, List.all_map, Surroundings.takes_append, h,
    Surroundings.takes_ofString, Bool.and_self, Bool.true_and, Bool.and_eq_true, List.all_eq_true,
    Function.comp_apply, hclass]
  refine ⟨?_, by simp⟩
  split_ifs
  · exact Surroundings.takes_ofString _
  · exact Surroundings.takes_joined (Surroundings.takes_ofString _) hkinds

theorem takesParts_directory {isDirectory : Path → Bool} {site : Path}
    (h : SiteConfig.directory s.siteVariable (.ofText s.program) isDirectory = .ok site) :
    s.TakesParts site := by
  unfold SiteConfig.directory at h
  split at h
  · split_ifs at h
    exact Except.ok.inj h ▸ Surroundings.takesParts_ofText _
  · split_ifs at h
    · exact Except.ok.inj h ▸
        (Surroundings.takesParts_ofText _).parent.child (Surroundings.takes_ofString _)
    · exact Except.ok.inj h ▸ Surroundings.takesParts_ofText _

theorem takesParts_foundDirectory {site : Path} (h : foundDirectory s t = .ok site) :
    s.TakesParts site := by
  have hfound : (SiteConfig.directory s.siteVariable (.ofText s.program) t.isDirectory).mapError
      Stop.config = .ok site := by
    unfold foundDirectory at h
    dsimp only at h
    split at h
    · exact h
    · obtain ⟨_, -, h⟩ := bind_eq_ok h
      exact h
  exact takesParts_directory (mapError_eq_ok_iff.1 hfound)

theorem takesParts_policy {site : Path} {sources : Sources} (hsite : s.TakesParts site)
    (h : (match r.policy with
      | some text => pure ⟨site, .ofText text⟩
      | none => pure ⟨site, site.child SiteConfig.policyFile⟩ : Except Stop Sources) =
        .ok sources) : s.TakesParts sources.policy := by
  split at h
  · exact Except.ok.inj h ▸ Surroundings.takesParts_ofText _
  · exact Except.ok.inj h ▸ hsite.child (Surroundings.takes_ofString _)

theorem takesParts_sources {sources : Sources} (h : r.sources s t = .ok sources) :
    s.TakesParts sources.policy := by
  unfold Request.sources at h
  dsimp only at h
  split at h
  · exact takesParts_policy (Surroundings.takesParts_ofText _) h
  · obtain ⟨site, hsite, h⟩ := bind_eq_ok h
    exact takesParts_policy (takesParts_foundDirectory hsite) h

/-- Every output takes what is printed about a valid policy. -/
theorem takes_of_validate (h : validate r s t = .ok texts) : texts.all s.takes = true := by
  obtain ⟨sources, hsources, h⟩ := bind_eq_ok h
  obtain ⟨policy, -, h⟩ := bind_eq_ok h
  obtain rfl := Except.ok.inj h
  exact takes_policyTexts policy (takesParts_sources hsources).text

end AccessPolicy.Command
