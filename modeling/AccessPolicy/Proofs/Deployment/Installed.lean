import AccessPolicy.Proofs.Deployment.Success
import AccessPolicy.Proofs.Text.Stored

/-!
# What the files say

Each generated file says the header and then its block, or what stands for an empty one
(`Deployment.IsBody`). A deployment that succeeds leaves that in each file that it reports, and
its blocks have no halves, whether their files were written or found there
(`Deployment.installs_of_success`).
-/

namespace AccessPolicy.Deployment

variable {plan : FaultPlan} {host : Host} {settings : Settings} {dir : Path} {b : Blocks}
  {t : FileTree} {serverName : Document} {hostName : Text} {text : Target → Text} {s' : Session}
  {o : Outcome}

/-- What a generated file says after its header, by the blocks. -/
inductive IsBody (serverName : Document) (hostName : Text) (b : Blocks) : Target → Text → Prop
  | auth : b.auth ≠ [] → IsBody serverName hostName b .auth b.auth
  | noAuth : b.auth = [] → IsBody serverName hostName b .auth Contents.noAuthComment
  | limits : b.limits ≠ [] → IsBody serverName hostName b .limits b.limits
  | fallback {block : Text} : b.limits = [] →
      Contents.fallbackBlock serverName hostName = .ok block →
      IsBody serverName hostName b .limits (Contents.fallbackComment ++ block)

/-- The texts are those of some fallback, which is the block that stands for empty limits. -/
theorem exists_fallback (h : Contents.texts b serverName hostName = .ok text) :
    ∃ fallback, text = Contents.text b fallback ∧
      (b.limits = [] → Contents.fallbackBlock serverName hostName = .ok fallback) := by
  unfold Contents.texts at h
  split_ifs at h with hempty
  · cases hfallback : Contents.fallbackBlock serverName hostName with
    | error f => simp [hfallback, bind, Except.bind] at h
    | ok fallback =>
      rw [hfallback] at h
      exact ⟨fallback, (Except.ok.inj h).symm, fun _ => rfl⟩
  · exact ⟨[], (Except.ok.inj h).symm, fun hnone => absurd (List.isEmpty_iff.2 hnone) hempty⟩

/-- Each text is the header and such a body. -/
theorem exists_isBody (h : Contents.texts b serverName hostName = .ok text) (target : Target) :
    ∃ body, IsBody serverName hostName b target body ∧
      text target = Contents.header ++ body := by
  obtain ⟨fallback, rfl, hfallback⟩ := exists_fallback h
  cases target with
  | auth =>
    refine ⟨_, ?_, rfl⟩
    by_cases hauth : b.auth = []
    · rw [if_pos (List.isEmpty_iff.2 hauth)]
      exact .noAuth hauth
    · rw [if_neg (mt List.isEmpty_iff.1 hauth)]
      exact .auth hauth
  | limits =>
    refine ⟨_, ?_, rfl⟩
    by_cases hlimits : b.limits = []
    · rw [if_pos (List.isEmpty_iff.2 hlimits)]
      exact .fallback hlimits (hfallback hlimits)
    · rw [if_neg (mt List.isEmpty_iff.1 hlimits)]
      exact .limits hlimits

/-- A text whose file a run that succeeds wrote or found there has no halves. -/
theorem Succeeded.exists_chars (h : Succeeded host settings dir b text t s') (target : Target) :
    ∃ cs, text target = Text.ofChars cs := by
  by_cases htarget : target ∈ changed t dir text
  · cases h with
    | unchanged hnone _ _ =>
      rw [hnone] at htarget
      exact absurd htarget (by simp)
    | deployed _ _ _ hdeployed _ =>
      obtain ⟨bytes, hbytes, -⟩ := hdeployed.exists_node htarget
      unfold encoded at hbytes
      split at hbytes
      · next str hstr => exact ⟨_, Text.eq_ofString_of_string? hstr⟩
      · cases hbytes
  · obtain ⟨-, _, _, -, -, htext⟩ :=
      shownText?_eq_some_iff.1 (shownText?_of_notMem_changed htarget)
    exact ⟨_, htext.symm⟩

theorem exists_chars_of_append {front x : Text} {cs : List Char}
    (h : front ++ x = Text.ofChars cs) : ∃ ds, x = Text.ofChars ds := by
  obtain ⟨_, ds, -, -, rfl⟩ := List.map_eq_append_iff.1 h.symm
  exact ⟨ds, rfl⟩

/-- Where the texts of both files have no halves, the blocks have none. -/
theorem exists_chars_of_texts (htext : Contents.texts b serverName hostName = .ok text)
    (h : ∀ target, ∃ cs, text target = Text.ofChars cs) :
    (∃ cs, b.auth = Text.ofChars cs) ∧ ∃ cs, b.limits = Text.ofChars cs := by
  obtain ⟨fallback, rfl, -⟩ := exists_fallback htext
  constructor
  · obtain ⟨cs, hcs⟩ := h .auth
    by_cases hauth : b.auth.isEmpty
    · exact ⟨[], List.isEmpty_iff.1 hauth⟩
    · rw [Contents.text, if_neg hauth] at hcs
      exact exists_chars_of_append hcs
  · obtain ⟨cs, hcs⟩ := h .limits
    by_cases hlimits : b.limits.isEmpty
    · exact ⟨[], List.isEmpty_iff.1 hlimits⟩
    · rw [Contents.text, if_neg hlimits] at hcs
      exact exists_chars_of_append hcs

/-- The file holds the header and what the blocks say for it. -/
def Installs (settings : Settings) (host : Host) (b : Blocks) (t : FileTree) (p : Path) : Prop :=
  ∃ dir target body bytes, settings.confDir = .path dir ∧ p = dir.child target.fileName ∧
    IsBody settings.serverName host.name b target body ∧
    encoded (Contents.header ++ body) = .ok bytes ∧ t.read p = .ok bytes

/-- After a run that succeeds, each file that it reports holds the header and what the blocks say
for it, and the blocks have no halves. -/
theorem installs_of_success
    (h : run plan host settings b false { tree := t } = (.ok o, s')) (ho : o.success = true) :
    (∀ p ∈ o.changed, Installs settings host b s'.tree p) ∧
      (∃ cs, b.auth = Text.ofChars cs) ∧ ∃ cs, b.limits = Text.ofChars cs := by
  rcases run_starts host settings b with ⟨dir, _, hdir, -, -⟩ | ⟨f, hfault⟩
  · obtain ⟨text, htext, -, hchanged, hsucceeded⟩ := success_cases hdir h ho
    refine ⟨fun p hp => ?_, exists_chars_of_texts htext hsucceeded.exists_chars⟩
    rw [hchanged] at hp
    obtain ⟨target, htarget, rfl⟩ := List.mem_map.1 hp
    obtain ⟨body, hbody, heq⟩ := exists_isBody htext target
    cases hsucceeded with
    | unchanged hnone _ _ =>
      rw [hnone] at htarget
      exact absurd htarget (by simp)
    | deployed _ _ _ hdeployed _ =>
      obtain ⟨bytes, hbytes, hnode⟩ := hdeployed.exists_node htarget
      refine ⟨dir, target, body, bytes, hdir, rfl, hbody, heq ▸ hbytes, ?_⟩
      exact FileTree.read_eq_ok_iff.2 ⟨_, hnode⟩
  · rw [hfault plan host false _ rfl] at h
    cases h

end AccessPolicy.Deployment
