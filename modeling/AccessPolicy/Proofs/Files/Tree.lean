import AccessPolicy.Files.Tree
import AccessPolicy.Proofs.Text.Lines
import Mathlib.Data.List.Basic

/-!
# What paths lead to as a tree changes

A path is followed through directories only, so a tree that has at least the same
directories leads every path to the same place (`FileTree.walk_mono`,
`FileTree.resolve_mono`). The changes of a tree are given by the places they touch :

* `FileTree.lookup_setMode` : the bits of one file;
* `FileTree.exists_rename` : one file goes, and stands at the place of the target;
* `FileTree.WritesAt.of_write` : one file is written;
* `FileTree.read_of_write` : it is read back;
* `FileTree.lookup_freshName` : a name for a temporary file stands nowhere yet.

`FileTree.Extends` : a tree with some more directories, each on the way of a path.
-/

namespace AccessPolicy

theorem Path.isAddress_iff {p : Path} : p.isAddress = true ↔
    ∀ c ∈ p.text, c.nameSize?.isSome = true ∧ c ≠ .char '\x00' := by
  rw [isAddress, Bool.and_eq_true, Text.isName, List.all_eq_true, Bool.not_eq_true']
  simp only [List.contains_eq_mem, decide_eq_false_iff_not]
  exact ⟨fun h c hc => ⟨h.1 c hc, fun he => h.2 (he ▸ hc)⟩,
    fun h => ⟨fun c hc => (h c hc).1, fun hc => (h _ hc).2 rfl⟩⟩

/-- The characters of a path in a directory are those of the directory and the name. -/
theorem Path.mem_text_child {p : Path} {name : Text} {c : CodePoint}
    (hc : c ∈ (p.child name).text) : c ∈ p.text ∨ c = .char '/' ∨ c ∈ name := by
  by_cases hnames : p.names = []
  · have htext : (p.child name).text = p.root ++ name := by
      simp [Path.text, child, hnames, Text.joined]
    rw [htext] at hc
    rcases List.mem_append.1 hc with hc | hc
    · refine .inl ?_
      have hroot : p.root ≠ [] := List.ne_nil_of_mem hc
      simpa [Path.text, hroot, hnames, Text.joined] using hc
    · exact .inr (.inr hc)
  · have htext : (p.child name).text = p.text ++ "/" ++ name := by
      simp [Path.text, child, hnames, Text.joined_concat "/" name hnames]
    rw [htext] at hc
    rcases List.mem_append.1 hc with hc | hc
    · exact (List.mem_append.1 hc).imp_right fun h => .inl (List.mem_singleton.1 h)
    · exact .inr (.inr hc)

/-- A directory that can be asked for can be asked for a name in it. -/
theorem Path.isAddress_child {p : Path} {name : Text} (hp : p.isAddress = true)
    (hname : ∀ c ∈ name, c.nameSize?.isSome = true ∧ c ≠ .char '\x00') :
    (p.child name).isAddress = true := by
  rw [isAddress_iff] at hp ⊢
  intro c hc
  rcases mem_text_child hc with hc | rfl | hc
  · exact hp c hc
  · decide
  · exact hname c hc

namespace FileTree

variable {t t' : FileTree}

@[simp] theorem lookup_nil (t : FileTree) : t.lookup [] = some .directory := by
  simp [lookup]

theorem ne_nil_of_lookup {q : Place} (h : t.lookup q ≠ some .directory) : q ≠ [] := by
  rintro rfl
  exact h t.lookup_nil

/-! ## Following names -/

/-- What is a directory in the one tree is one in the other. -/
def KeepsDirectories (t t' : FileTree) : Prop :=
  ∀ q, t.lookup q = some .directory → t'.lookup q = some .directory

theorem KeepsDirectories.refl (t : FileTree) : KeepsDirectories t t := fun _ h => h

theorem KeepsDirectories.trans {t'' : FileTree} (h : KeepsDirectories t t')
    (h' : KeepsDirectories t' t'') : KeepsDirectories t t'' :=
  fun q hq => h' q (h q hq)

theorem walk_mono (h : KeepsDirectories t t') :
    ∀ (names : List Text) (p q : Place), t.walk p names = .ok q → t'.walk p names = .ok q
  | [], _, _, hw => hw
  | name :: names, p, q, hw => by
    rw [walk] at hw
    rw [walk]
    split at hw
    · exact absurd hw (by simp)
    · exact absurd hw (by simp)
    · rename_i hp
      rw [h p hp]
      simp only at hw ⊢
      split_ifs at hw ⊢
      · exact walk_mono h names _ q hw
      · exact walk_mono h names _ q hw

theorem resolve_mono (h : KeepsDirectories t t') {p : Path} {q : Place}
    (hq : t.resolve p = .ok q) : t'.resolve p = .ok q := by
  unfold resolve at hq ⊢
  split_ifs at hq ⊢
  exact walk_mono h _ _ _ hq

theorem walk_append (t : FileTree) :
    ∀ (names more : List Text) (p : Place),
      t.walk p (names ++ more) = (t.walk p names).bind fun q => t.walk q more
  | [], _, _ => rfl
  | name :: names, more, p => by
    rw [List.cons_append, walk, walk]
    split
    · rfl
    · rfl
    · split_ifs
      · exact walk_append t names more _
      · rfl
      · exact walk_append t names more _

/-- The place of a name in a directory. -/
theorem walk_child {names : List Text} {name : Text} {q : Place} (hname : name ≠ "..")
    (h : t.walk [] (names ++ [name]) = .ok q) :
    ∃ d, t.walk [] names = .ok d ∧ t.lookup d = some .directory ∧ q = d ++ [name] := by
  rw [walk_append] at h
  cases hd : t.walk [] names with
  | error e => simp [hd, Except.bind] at h
  | ok d =>
    simp only [hd, Except.bind, walk] at h
    split at h
    · exact absurd h (by simp)
    · exact absurd h (by simp)
    · rename_i hdir
      rw [if_neg hname] at h
      split_ifs at h
      exact ⟨d, rfl, hdir, by simpa using h.symm⟩

theorem walk_of_resolve {p : Path} {q : Place} (h : t.resolve p = .ok q) :
    t.walk [] p.names = .ok q := by
  unfold resolve at h
  split_ifs at h
  exact h

theorem nodeAt_eq_ok_iff {p : Path} {n : Node} :
    t.nodeAt p = .ok n ↔ ∃ q, t.resolve p = .ok q ∧ t.lookup q = some n := by
  unfold nodeAt
  cases hq : t.resolve p with
  | error e => simp [bind, Except.bind]
  | ok q => cases hn : t.lookup q <;> simp [hn, bind, Except.bind]

theorem read_eq_ok_iff {p : Path} {bytes : List UInt8} :
    t.read p = .ok bytes ↔ ∃ mode, t.nodeAt p = .ok (.file bytes mode) := by
  unfold read
  cases hn : t.nodeAt p with
  | error e => simp [bind, Except.bind]
  | ok n => cases n <;> simp [bind, Except.bind]

/-! ## Changes -/

theorem lookup_setMode (t : FileTree) {p : Place} {bytes : List UInt8} {mode : Nat}
    (h : t.lookup p = some (.file bytes mode)) (mode' : Nat) (q : Place) :
    (t.setMode p mode').lookup q = if p = q then some (.file bytes mode') else t.lookup q := by
  have hp : p ≠ [] := ne_nil_of_lookup (by rw [h]; simp)
  simp only [setMode, h]
  exact lookup_set t q _ hp

/-- A file that was moved stands at the place of the target and no longer where it stood. -/
theorem exists_rename {source : Place} {target : Path} {n : Node}
    (hn : t.lookup source = some n) (hs : source ≠ []) (h : t.rename source target = .ok t') :
    ∃ place, t.resolve target = .ok place ∧ t.lookup place ≠ some .directory ∧
      ∀ q, t'.lookup q =
        if place = q then some n else if source = q then none else t.lookup q := by
  unfold rename at h
  cases hp : t.resolve target with
  | error e => simp [hp, bind, Except.bind] at h
  | ok place =>
    simp only [hp, bind, Except.bind, hn] at h
    split at h
    · exact absurd ‹some n = none› (by simp)
    · exact absurd h (by simp)
    · rename_i m hm hdir
      have hne : t.lookup place ≠ some .directory := hdir
      have hp' : place ≠ [] := ne_nil_of_lookup hne
      obtain rfl := Except.ok.inj h
      refine ⟨place, rfl, hne, fun q => ?_⟩
      rw [lookup_set _ q _ hp', lookup_erase _ q hs, Option.some.inj hm]

theorem exists_write {p : Path} {bytes : List UInt8} (h : t.write p bytes = .ok t') :
    ∃ place mode, t.resolve p = .ok place ∧ t.lookup place ≠ some .directory ∧
      t' = t.set place (.file bytes mode) := by
  unfold write at h
  cases hp : t.resolve p with
  | error e => simp [hp, bind, Except.bind] at h
  | ok place =>
    simp only [hp, bind, Except.bind] at h
    split at h
    · exact absurd h (by simp)
    · rename_i mode hm
      exact ⟨place, mode, rfl, by rw [hm]; simp, (Except.ok.inj h).symm⟩
    · rename_i hm
      exact ⟨place, defaultMode, rfl, by rw [hm]; simp, (Except.ok.inj h).symm⟩

theorem keepsDirectories_set {p : Place} (n : Node) (h : t.lookup p ≠ some .directory) :
    KeepsDirectories t (t.set p n) := by
  intro q hq
  have hpq : p ≠ q := by
    rintro rfl
    exact h hq
  rw [lookup_set t q n (ne_nil_of_lookup h), if_neg hpq, hq]

/-- Two names of one directory lead to one place only if they are one name. -/
theorem name_eq_of_resolve {dir : Path} {a b : Text} {q : Place} (ha : a ≠ "..") (hb : b ≠ "..")
    (hqa : t.resolve (dir.child a) = .ok q) (hqb : t.resolve (dir.child b) = .ok q) : a = b := by
  obtain ⟨d, hd, -, rfl⟩ := walk_child ha (walk_of_resolve hqa)
  obtain ⟨d', hd', -, heq⟩ := walk_child hb (walk_of_resolve hqb)
  obtain rfl : d = d' := Except.ok.inj (hd.symm.trans hd')
  simpa using heq

/-- The directories are the same, and so is all else but where the path leads. -/
structure WritesAt (p : Path) (t t' : FileTree) : Prop where
  directories : ∀ q, t'.lookup q = some .directory ↔ t.lookup q = some .directory
  other : ∀ q, t.resolve p ≠ .ok q → t'.lookup q = t.lookup q

theorem WritesAt.resolve_iff {p : Path} (h : WritesAt p t t') {a : Path} {q : Place} :
    t'.resolve a = .ok q ↔ t.resolve a = .ok q :=
  ⟨resolve_mono fun q => (h.directories q).1, resolve_mono fun q => (h.directories q).2⟩

theorem WritesAt.refl (p : Path) (t : FileTree) : WritesAt p t t :=
  ⟨fun _ => .rfl, fun _ _ => rfl⟩

theorem WritesAt.trans {p : Path} {t'' : FileTree} (h : WritesAt p t t')
    (h' : WritesAt p t' t'') : WritesAt p t t'' where
  directories q := (h'.directories q).trans (h.directories q)
  other q hq := (h'.other q fun he => hq (h.resolve_iff.1 he)).trans (h.other q hq)

theorem WritesAt.of_write {p : Path} {bytes : List UInt8} (h : t.write p bytes = .ok t') :
    WritesAt p t t' := by
  obtain ⟨place, mode, hp, hdir, rfl⟩ := exists_write h
  have hset := fun q => lookup_set t q (.file bytes mode) (ne_nil_of_lookup hdir)
  refine ⟨fun q => ?_, fun q hq => ?_⟩
  · rw [hset]
    split_ifs with hpq
    · subst hpq
      simp [hdir]
    · exact .rfl
  · rw [hset, if_neg]
    rintro rfl
    exact hq hp

/-- A file that was written is read back. -/
theorem read_of_write {p : Path} {bytes : List UInt8} (h : t.write p bytes = .ok t') :
    t'.read p = .ok bytes := by
  obtain ⟨place, mode, hp, hdir, rfl⟩ := exists_write h
  have hp' := resolve_mono (keepsDirectories_set (.file bytes mode) hdir) hp
  have hn := lookup_set t place (.file bytes mode) (ne_nil_of_lookup hdir)
  rw [if_pos rfl] at hn
  exact read_eq_ok_iff.2 ⟨mode, nodeAt_eq_ok_iff.2 ⟨place, hp', hn⟩⟩

/-! ## Names for temporary files -/

theorem find_eq_none {p : Place} :
    ∀ {es : List (Place × Node)}, (∀ e ∈ es, e.1 ≠ p) → find p es = none
  | [], _ => rfl
  | e :: es, h => by
    rw [find, if_neg (h e (by simp))]
    exact find_eq_none fun e' he' => h e' (by simp [he'])

theorem length_le_foldl_max {α : Type} :
    ∀ (l : List (List α)) (n : Nat), n ≤ (l.map List.length).foldl max n ∧
      ∀ x ∈ l, x.length ≤ (l.map List.length).foldl max n
  | [], n => ⟨Nat.le_refl n, by simp⟩
  | y :: l, n => by
    obtain ⟨h₁, h₂⟩ := length_le_foldl_max l (max n y.length)
    simp only [List.map_cons, List.foldl_cons, List.mem_cons]
    refine ⟨by omega, ?_⟩
    rintro x (rfl | hx)
    · omega
    · exact h₂ x hx

theorem longName_notMem (t : FileTree) (stem : Text) : t.longName stem ∉ t.lastNames := by
  intro h
  have hle := (length_le_foldl_max t.lastNames 0).2 _ h
  simp only [longName, List.length_append, List.length_replicate] at hle
  omega

theorem freshName_notMem (t : FileTree) (stem : Text) : t.freshName stem ∉ t.lastNames := by
  unfold freshName
  cases hf : (t.numberedNames stem).find? fun name => !t.lastNames.contains name with
  | none => exact t.longName_notMem stem
  | some name =>
    have := List.find?_some hf
    simpa using this

/-- A name for a temporary file stands nowhere yet. -/
theorem lookup_freshName (t : FileTree) (d : Place) (stem : Text) :
    t.lookup (d ++ [t.freshName stem]) = none := by
  have hne : d ++ [t.freshName stem] ≠ [] := by simp
  rw [lookup, if_neg hne]
  refine find_eq_none fun e he hp => t.freshName_notMem stem ?_
  have hlast : e.1.getLastD [] = t.freshName stem := by rw [hp]; simp
  rw [← hlast]
  exact List.mem_map_of_mem he

theorem freshName_eq_append (t : FileTree) (stem : Text) :
    ∃ rest, t.freshName stem = stem ++ rest := by
  unfold freshName
  cases hf : (t.numberedNames stem).find? fun name => !t.lastNames.contains name with
  | none => exact ⟨_, rfl⟩
  | some name =>
    obtain ⟨n, -, rfl⟩ := List.mem_map.1 (List.mem_of_find?_eq_some hf)
    exact ⟨_, rfl⟩

/-! ## More directories -/

theorem exists_makeDirectory {a : Path} (h : t.makeDirectory a = .ok t') :
    ∃ place, t.resolve a = .ok place ∧ t.lookup place = none ∧
      t' = t.set place .directory := by
  unfold makeDirectory at h
  cases hp : t.resolve a with
  | error e => simp [hp, bind, Except.bind] at h
  | ok place =>
    simp only [hp, bind, Except.bind] at h
    split at h
    · exact absurd h (by simp)
    · next hn => exact ⟨place, rfl, hn, (Except.ok.inj h).symm⟩

/-- A place is as it was, or it is on the way of a path and has got a directory where nothing
stood. -/
def ExtendsAt (p : Path) (t t' : FileTree) (q : Place) : Prop :=
  t'.lookup q = t.lookup q ∨
    (t.lookup q = none ∧ t'.lookup q = some .directory ∧
      ∃ n, t'.walk [] (p.names.take n) = .ok q)

/-- The tree has got directories on the way of a path and is else as it was. -/
def Extends (p : Path) (t t' : FileTree) : Prop :=
  ∀ q, ExtendsAt p t t' q

namespace Extends

variable {p : Path}

theorem refl (p : Path) (t : FileTree) : Extends p t t := fun _ => .inl rfl

theorem keepsDirectories (h : Extends p t t') : KeepsDirectories t t' := by
  intro q hq
  rcases h q with he | ⟨hn, -, -⟩
  · rw [he, hq]
  · rw [hq] at hn
    exact absurd hn (by simp)

theorem trans {t'' : FileTree} (h : Extends p t t') (h' : Extends p t' t'') :
    Extends p t t'' := by
  intro q
  rcases h' q with he' | ⟨hn', hd', hw'⟩
  · rcases h q with he | ⟨hn, hd, n, hw⟩
    · exact .inl (he'.trans he)
    · exact .inr ⟨hn, he'.trans hd, n, walk_mono h'.keepsDirectories _ _ _ hw⟩
  · rcases h q with he | ⟨-, hd, -⟩
    · exact .inr ⟨he ▸ hn', hd', hw'⟩
    · rw [hd] at hn'
      exact absurd hn' (by simp)

theorem of_makeDirectory {n : Nat} {a : Path} (ha : a.names = p.names.take n)
    (h : t.makeDirectory a = .ok t') : Extends p t t' := by
  obtain ⟨place, hp, hn, rfl⟩ := exists_makeDirectory h
  have hdir : t.lookup place ≠ some .directory := by rw [hn]; simp
  intro q
  have hset := lookup_set t q .directory (ne_nil_of_lookup hdir)
  split_ifs at hset with hq
  · subst hq
    have hw := walk_of_resolve (resolve_mono (keepsDirectories_set .directory hdir) hp)
    exact .inr ⟨hn, hset, n, ha ▸ hw⟩
  · exact .inl hset

end Extends

end FileTree

end AccessPolicy
