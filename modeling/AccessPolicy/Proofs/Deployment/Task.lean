import AccessPolicy.Proofs.Deployment.Check
import AccessPolicy.Proofs.Document.Walk
import Mathlib.Data.List.Nodup

/-!
# A tree that is being written

What a tree looks like while files are written to it, place by place. `Task.Midway` is the
invariant : the files of `done` stand at their places, those of `rest` stand in temporary
files where nothing stood before, and every other place is as it was when the writing
started. It is kept by each of the three steps :

* `Task.Midway.staged_append` : one more file is staged;
* `Task.Midway.moved` : the first staged file is moved into place;
* `Task.Midway.discarded` : all temporary files are removed.
-/

namespace AccessPolicy.Deployment

open FileTree (KeepsDirectories)

theorem fileName_injective : Function.Injective Target.fileName := by
  intro a b h
  cases a <;> cases b <;> first | rfl | exact absurd h (by decide)

theorem fileName_ne_dots (target : Target) : target.fileName ≠ ".." := by
  cases target <;> decide

theorem fileName_ne_hidden (target : Target) (name : Text) :
    target.fileName ≠ .char '.' :: name := by
  intro h
  cases target
  · exact absurd (List.cons.inj h).1 (by decide)
  · exact absurd (List.cons.inj h).1 (by decide)

/-- What a run writes : texts with permission bits to targets in a directory. -/
structure Task where
  dir : Path
  /-- The place of the directory. -/
  place : Place
  /-- The tree before anything is staged. -/
  base : FileTree
  text : Target → Text
  mode : Nat
  stands : base.walk [] dir.names = .ok place

namespace Task

variable (w : Task) {t t' : FileTree} {done rest : List Target} {staged : List Staged}

/-- The place of a target. -/
def target (target : Target) : Place := w.place ++ [target.fileName]

/-- The target has its new text and the permission bits. -/
structure IsWritten (t : FileTree) (target : Target) : Prop where
  resolve : w.base.resolve (w.dir.child target.fileName) = .ok (w.target target)
  base : w.base.lookup (w.target target) ≠ some .directory
  filled : ∃ bytes, encoded (w.text target) = .ok bytes ∧
    t.lookup (w.target target) = some (.file bytes w.mode)

/-- A temporary file holds what the target is to get. -/
structure IsStaged (t : FileTree) (target : Target) (e : Staged) : Prop where
  path : e.target = w.dir.child target.fileName
  hidden : ∃ name, e.temporary = w.place ++ [.char '.' :: name]
  free : w.base.lookup e.temporary = none
  filled : ∃ bytes, encoded (w.text target) = .ok bytes ∧
    t.lookup e.temporary = some (.file bytes w.mode)

/-- The tree on the way : some targets are written, others are staged, and all else is as it
was. -/
structure Midway (done rest : List Target) (t : FileTree) (staged : List Staged) : Prop where
  written : ∀ target ∈ done, w.IsWritten t target
  holds : List.Forall₂ (w.IsStaged t) rest staged
  nodup : (staged.map Staged.temporary).Nodup
  kept : ∀ q, q ∉ done.map w.target → q ∉ staged.map Staged.temporary →
    t.lookup q = w.base.lookup q

variable {w}

/-! ## Places -/

theorem target_injective : Function.Injective w.target := by
  intro a b h
  have hname : a.fileName = b.fileName := by
    simpa [target] using h
  exact fileName_injective hname

/-- No target has the place of a temporary file. -/
theorem target_ne_hidden (a : Target) (name : Text) :
    w.target a ≠ w.place ++ [.char '.' :: name] := by
  intro h
  exact fileName_ne_hidden a name (by simpa [target] using h)

theorem IsStaged.target_ne {a : Target} {e : Staged} (h : w.IsStaged t a e) (b : Target) :
    w.target b ≠ e.temporary := by
  obtain ⟨name, hname⟩ := h.hidden
  rw [hname]
  exact target_ne_hidden b name

theorem forall₂_imp_mem {α β : Type} {R S : α → β → Prop} :
    ∀ {l : List α} {l' : List β}, List.Forall₂ R l l' →
      (∀ a, ∀ b ∈ l', R a b → S a b) → List.Forall₂ S l l'
  | _, _, .nil, _ => .nil
  | _, _, .cons h hs, himp =>
    .cons (himp _ _ List.mem_cons_self h)
      (forall₂_imp_mem hs fun a b hb => himp a b (List.mem_cons_of_mem _ hb))

namespace Midway

theorem exists_isStaged (h : w.Midway done rest t staged) {q : Place}
    (hq : q ∈ staged.map Staged.temporary) : ∃ a ∈ rest, ∃ e ∈ staged, e.temporary = q ∧
      w.IsStaged t a e := by
  obtain ⟨e, he, rfl⟩ := List.mem_map.1 hq
  obtain ⟨a, ha, hae⟩ := exists_of_mem_forall₂ h.holds e he
  exact ⟨a, ha, e, he, rfl, hae⟩

theorem target_notMem (h : w.Midway done rest t staged) (a : Target) :
    w.target a ∉ staged.map Staged.temporary := by
  intro hq
  obtain ⟨b, -, e, -, he, hb⟩ := h.exists_isStaged hq
  exact hb.target_ne a he.symm

/-- The directories are the same as at the start. -/
theorem keepsDirectories (h : w.Midway done rest t staged) : KeepsDirectories w.base t := by
  intro q hq
  have hdone : q ∉ done.map w.target := by
    intro hmem
    obtain ⟨a, ha, rfl⟩ := List.mem_map.1 hmem
    exact (h.written a ha).base hq
  have hstaged : q ∉ staged.map Staged.temporary := by
    intro hmem
    obtain ⟨a, -, e, -, rfl, ha⟩ := h.exists_isStaged hmem
    rw [ha.free] at hq
    exact absurd hq (by simp)
  rw [h.kept q hdone hstaged, hq]

theorem lookup_ne_directory (h : w.Midway done rest t staged) {q : Place}
    (hq : w.base.lookup q ≠ some .directory) : t.lookup q ≠ some .directory := by
  by_cases hdone : q ∈ done.map w.target
  · obtain ⟨a, ha, rfl⟩ := List.mem_map.1 hdone
    obtain ⟨bytes, -, hl⟩ := (h.written a ha).filled
    rw [hl]
    simp
  by_cases hstaged : q ∈ staged.map Staged.temporary
  · obtain ⟨a, -, e, -, rfl, ha⟩ := h.exists_isStaged hstaged
    obtain ⟨bytes, -, hl⟩ := ha.filled
    rw [hl]
    simp
  rw [h.kept q hdone hstaged]
  exact hq

theorem reflectsDirectories (h : w.Midway done rest t staged) : KeepsDirectories t w.base := by
  intro q hq
  by_contra hne
  exact h.lookup_ne_directory hne hq

theorem start (w : Task) : w.Midway [] [] w.base [] where
  written := by simp
  holds := .nil
  nodup := by simp
  kept _ _ _ := rfl

/-- Another tree with the same nodes is as far on the way. -/
theorem congr (h : w.Midway done rest t staged) (ht : ∀ q, t'.lookup q = t.lookup q) :
    w.Midway done rest t' staged where
  written a ha := ⟨(h.written a ha).resolve, (h.written a ha).base, by
    rw [ht]
    exact (h.written a ha).filled⟩
  holds := h.holds.imp fun a e hae => ⟨hae.path, hae.hidden, hae.free, by
    rw [ht]
    exact hae.filled⟩
  nodup := h.nodup
  kept q hd hs := (ht q).trans (h.kept q hd hs)

/-- A place where nothing stands had nothing at the start. -/
theorem base_eq_none (h : w.Midway done rest t staged) {q : Place} (hq : t.lookup q = none) :
    w.base.lookup q = none := by
  rw [← h.kept q, hq]
  · intro hmem
    obtain ⟨a, ha, rfl⟩ := List.mem_map.1 hmem
    obtain ⟨bytes, -, hl⟩ := (h.written a ha).filled
    rw [hq] at hl
    exact absurd hl (by simp)
  · intro hmem
    obtain ⟨a, -, e, -, rfl, ha⟩ := h.exists_isStaged hmem
    obtain ⟨bytes, -, hl⟩ := ha.filled
    rw [hq] at hl
    exact absurd hl (by simp)

/-- One more file is staged where nothing stands. -/
theorem staged_append (h : w.Midway done rest t staged) {a : Target} {name : Text} {q : Place}
    {bytes : List UInt8} (hq : q = w.place ++ [.char '.' :: name]) (hnone : t.lookup q = none)
    (hb : encoded (w.text a) = .ok bytes) (hn : t'.lookup q = some (.file bytes w.mode))
    (hother : ∀ p, q ≠ p → t'.lookup p = t.lookup p) :
    w.Midway done (rest ++ [a]) t' (staged ++ [⟨q, w.dir.child a.fileName⟩]) := by
  have hbase := h.base_eq_none hnone
  have hnew : q ∉ staged.map Staged.temporary := by
    intro hmem
    obtain ⟨b, -, e, -, rfl, hb⟩ := h.exists_isStaged hmem
    obtain ⟨bytes, -, hl⟩ := hb.filled
    rw [hnone] at hl
    exact absurd hl (by simp)
  refine ⟨fun b hb => ?_, ?_, ?_, fun p hd hs => ?_⟩
  · refine ⟨(h.written b hb).resolve, (h.written b hb).base, ?_⟩
    rw [hother _ fun he => target_ne_hidden b name (he.symm.trans hq)]
    exact (h.written b hb).filled
  · have hold : List.Forall₂ (w.IsStaged t') rest staged := by
      refine h.holds.imp fun b e hbe => ⟨hbe.path, hbe.hidden, hbe.free, ?_⟩
      obtain ⟨content, hc, hl⟩ := hbe.filled
      have hqe : q ≠ e.temporary := by
        rintro rfl
        rw [hnone] at hl
        exact absurd hl (by simp)
      exact ⟨content, hc, (hother _ hqe).trans hl⟩
    exact List.rel_append hold (.cons ⟨rfl, ⟨name, hq⟩, hbase, bytes, hb, hn⟩ .nil)
  · rw [List.map_append, List.nodup_append]
    refine ⟨h.nodup, by simp, ?_⟩
    rintro p hp p' hp' rfl
    obtain rfl : p = q := by simpa using hp'
    exact hnew hp
  · rw [List.map_append, List.mem_append, not_or] at hs
    have hqp : q ≠ p := fun he => hs.2 (by simp [he])
    rw [hother p hqp]
    exact h.kept p hd hs.1

theorem place_of_resolve {a : Target} {q : Place}
    (hq : w.base.resolve (w.dir.child a.fileName) = .ok q) : q = w.target a := by
  obtain ⟨d, hd, -, rfl⟩ :=
    FileTree.walk_child (fileName_ne_dots a) (FileTree.walk_of_resolve hq)
  rw [w.stands] at hd
  rw [target, Except.ok.inj hd]

/-- The first staged file is moved into place. -/
theorem moved {a : Target} {e : Staged} (h : w.Midway done (a :: rest) t (e :: staged))
    (hnew : a ∉ done) (ht : t.rename e.temporary e.target = .ok t') :
    w.Midway (done ++ [a]) rest t' staged := by
  obtain ⟨hae, hrest⟩ := List.forall₂_cons.1 h.holds
  obtain ⟨bytes, hb, hfile⟩ := hae.filled
  have hroot : e.temporary ≠ [] := FileTree.ne_nil_of_lookup (by rw [hfile]; simp)
  obtain ⟨place, hp, hdir, hlookup⟩ := FileTree.exists_rename hfile hroot ht
  rw [hae.path] at hp
  have hbase := FileTree.resolve_mono h.reflectsDirectories hp
  obtain rfl := place_of_resolve hbase
  have hdir' : w.base.lookup (w.target a) ≠ some .directory :=
    fun hd => hdir (h.keepsDirectories _ hd)
  have hnodup := h.nodup
  rw [List.map_cons, List.nodup_cons] at hnodup
  refine ⟨fun b hb' => ?_, forall₂_imp_mem hrest fun b e' he' hbe => ?_, hnodup.2,
    fun q hd hs => ?_⟩
  · rcases List.mem_append.1 hb' with hdone | hlast
    · refine ⟨(h.written b hdone).resolve, (h.written b hdone).base, ?_⟩
      have hne : w.target a ≠ w.target b := fun he => hnew (target_injective he ▸ hdone)
      rw [hlookup, if_neg hne, if_neg fun he => hae.target_ne b he.symm]
      exact (h.written b hdone).filled
    · obtain rfl := List.mem_singleton.1 hlast
      exact ⟨hbase, hdir', bytes, hb, by rw [hlookup, if_pos rfl]⟩
  · refine ⟨hbe.path, hbe.hidden, hbe.free, ?_⟩
    have hne : e.temporary ≠ e'.temporary := fun he =>
      hnodup.1 (he ▸ List.mem_map_of_mem he')
    rw [hlookup, if_neg (hbe.target_ne a), if_neg hne]
    exact hbe.filled
  · rw [List.map_append, List.mem_append, not_or] at hd
    have hqa : w.target a ≠ q := fun he => hd.2 (by simp [he])
    rw [hlookup, if_neg hqa]
    split_ifs with hqe
    · rw [← hqe, hae.free]
    · refine h.kept q hd.1 ?_
      rw [List.map_cons, List.mem_cons, not_or]
      exact ⟨fun he => hqe he.symm, hs⟩

/-- All temporary files are removed. -/
theorem discarded (h : w.Midway done rest t staged)
    (ht : ∀ q, t'.lookup q = if q ∈ staged.map Staged.temporary then none else t.lookup q) :
    w.Midway done [] t' [] := by
  refine ⟨fun a ha => ?_, .nil, by simp, fun q hd _ => ?_⟩
  · refine ⟨(h.written a ha).resolve, (h.written a ha).base, ?_⟩
    rw [ht, if_neg (h.target_notMem a)]
    exact (h.written a ha).filled
  · rw [ht]
    split_ifs with hq
    · obtain ⟨a, -, e, -, rfl, ha⟩ := h.exists_isStaged hq
      exact ha.free.symm
    · exact h.kept q hd hq

end Midway

end Task

end AccessPolicy.Deployment
