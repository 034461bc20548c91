import AccessPolicy.Proofs.Directive.Limit
import AccessPolicy.Proofs.Document.Showable

/-!
# Validation is the only gate

The words of a violation show keys and values of the document, so a violation of a document
that can be shown can be shown (`Validation.shows_violation?`), and refusing the document for
it is no fault.

`Policy.validate_gates_compile` : such a document is accepted or refused for its first
violation. Compiling is refused exactly for the first violation of the merged document; where
there is none, nothing after it can fail.
-/

namespace AccessPolicy

namespace Validation

/-- The violation, if there is one, can be shown. -/
def Shows (x : Option Violation) : Prop :=
  ∀ v, x = some v → v.isShowable = true

theorem shows_none : Shows none :=
  nofun

theorem shows_some {v : Violation} (h : v.isShowable = true) : Shows (some v) :=
  fun _ hv => Option.some.inj hv ▸ h

theorem shows_require {condition : Bool} {v : Violation} (h : v.isShowable = true) :
    Shows (require condition v) := by
  unfold require
  split
  · exact shows_none
  · exact shows_some h

theorem shows_or {x y : Option Violation} (hx : Shows x) (hy : Shows y) : Shows (x.or y) := by
  cases x with
  | none => exact hy
  | some v => exact hx

theorem shows_findSome? {α : Type} {f : α → Option Violation} {l : List α}
    (h : ∀ a ∈ l, Shows (f a)) : Shows (l.findSome? f) := by
  intro v hv
  obtain ⟨a, ha, hf⟩ := List.exists_of_findSome?_eq_some hv
  exact h a ha v hf

/-! ## Methods -/

section Methods

variable {methods config : Entries}

theorem shows_methodFields (kind : MethodKind) (h : config.Showable) :
    Shows (methodFields kind config) := by
  refine shows_or (shows_findSome? fun e he => shows_require (h e he).1) ?_
  split
  · exact shows_require rfl
  · exact shows_none

theorem shows_method {key : Key} {d : Document} (hkey : key.isShowable = true)
    (hd : d.isShowable = true) : Shows (method key d) := by
  unfold method
  split
  · exact shows_some hkey
  · split
    · next hes => exact shows_methodFields _ (Document.showable_of_entries? hd hes)
    · exact shows_some rfl

theorem shows_fileMethod : Shows (fileMethod methods) := by
  unfold fileMethod
  split
  · split
    · exact shows_or (shows_require rfl) (shows_require rfl)
    · exact shows_some rfl
  · exact shows_none

theorem shows_optionalText (config : Entries) (name : Text) :
    Shows (optionalText config name) := by
  unfold optionalText
  split
  · exact shows_none
  · exact shows_none
  · exact shows_some rfl

theorem shows_security (h : config.Showable) : Shows (security config) := by
  unfold security
  split
  · exact shows_require rfl
  · exact shows_require (h.getD _)

theorem shows_posixGroup (config : Entries) : Shows (posixGroup config) := by
  unfold posixGroup
  split
  · exact shows_some rfl
  · exact shows_require rfl

theorem shows_url (config : Entries) : Shows (url config) := by
  unfold url
  split
  · exact shows_require rfl
  · exact shows_some rfl

theorem shows_ldapMethod (h : methods.Showable) : Shows (ldapMethod methods) := by
  unfold ldapMethod
  split
  · have hconfig : (configOf methods .ldap).Showable := Document.showable_entries (h.getD _)
    exact shows_or (shows_posixGroup _) <| shows_or (shows_url _) <|
      shows_or (shows_findSome? fun name _ => shows_optionalText _ name) (shows_security hconfig)
  · exact shows_none

theorem shows_methodsStage (h : methods.Showable) : Shows (methodsStage methods) :=
  shows_or (shows_findSome? fun e he => shows_method (h e he).1 (h e he).2) <|
    shows_or shows_fileMethod (shows_ldapMethod h)

end Methods

/-! ## Limits -/

section Limits

variable {limits : Entries} {key : Key} {place : GrantPlace} {d : Document}

theorem shows_principalShapes (limits : Entries) : Shows (principalShapes limits) := by
  refine shows_findSome? fun c _ => ?_
  split
  · exact shows_none
  · exact shows_require rfl

theorem shows_userName (h : key.isShowable = true) : Shows (userName key) := by
  unfold userName
  split
  · exact shows_or (shows_require h) (shows_require h)
  · exact shows_some h

theorem shows_groupName (h : key.isShowable = true) : Shows (groupName key) := by
  unfold groupName
  split
  · exact shows_or (shows_require h) (shows_require h)
  · exact shows_some h

theorem showable_principalsOf (h : limits.Showable) (c : PrincipalClass) :
    (principalsOf limits c).Showable :=
  Document.showable_entries (h.getD _)

theorem shows_principalNames (h : limits.Showable) : Shows (principalNames limits) := by
  have hkeys := fun c e he => (showable_principalsOf h c e he).1
  exact shows_or (shows_findSome? fun e he => shows_require (hkeys .hosts e he)) <|
    shows_or (shows_findSome? fun e he => shows_userName (hkeys .users e he))
      (shows_findSome? fun e he => shows_groupName (hkeys .ldapGroups e he))

theorem shows_operation (hplace : place.isShowable = true) (hd : d.isShowable = true) :
    Shows (operation place d) := by
  have hboth : (Violation.unknownOperation place d).isShowable = true :=
    Bool.and_eq_true_iff.2 ⟨hplace, hd⟩
  unfold operation
  split
  · exact shows_require hboth
  · exact shows_some hboth

theorem shows_operationList (hplace : place.isShowable = true) (hd : d.isShowable = true) :
    Shows (operationList place d) := by
  unfold operationList
  split
  · exact shows_some hplace
  · next items _ hitems =>
    exact shows_findSome? fun item hitem =>
      shows_operation hplace (Document.isShowable_of_items? hd hitems item hitem)
  · exact shows_some hplace

theorem shows_grant (hplace : place.isShowable = true) (hd : d.isShowable = true) :
    Shows (grant place d) := by
  unfold grant
  split
  · exact shows_none
  · split
    · exact shows_none
    · exact shows_operationList hplace hd
  · exact shows_operationList hplace hd

theorem shows_operationSets (h : limits.Showable) : Shows (operationSets limits) := by
  refine shows_or (shows_operationList rfl (h.getD _)) (shows_findSome? fun c _ => ?_)
  refine shows_findSome? fun e he => ?_
  obtain ⟨hkey, hvalue⟩ := showable_principalsOf h c e he
  exact shows_grant hkey hvalue

theorem shows_limitsStage (h : limits.Showable) : Shows (limitsStage limits) :=
  shows_or (shows_findSome? fun e he => shows_require (h e he).1) <|
    shows_or (shows_principalShapes limits) <|
      shows_or (shows_principalNames h) (shows_operationSets h)

end Limits

/-! ## Documents -/

theorem shows_shape {d : Document} (h : d.isShowable = true) : Shows (shape d) := by
  unfold shape
  split
  · next es hes =>
    have hkeys := Document.showable_of_entries? h hes
    exact shows_or (shows_findSome? fun e he => shows_require (hkeys e he).1)
      (shows_findSome? fun _ _ => shows_require rfl)
  · exact shows_some rfl

theorem showable_sectionEntries {d : Document} (h : d.isShowable = true) (name : Text) :
    (d.sectionEntries name).Showable :=
  Document.showable_entries ((Document.showable_entries h).getD name)

theorem shows_violation? {d : Document} (h : d.isShowable = true) : Shows d.violation? :=
  shows_or (shows_shape h) <| shows_or (shows_methodsStage (showable_sectionEntries h _))
    (shows_limitsStage (showable_sectionEntries h _))

/-- A document that can be shown is refused for its first violation, and for nothing else. -/
theorem validate_of_isShowable {d : Document} (h : d.isShowable = true) : d.validate =
    match d.violation? with
    | some v => .error (.violation v)
    | none => .ok () := by
  unfold Document.validate
  cases hv : d.violation? with
  | none => rfl
  | some v => simp [Violation.rejection, shows_violation? h v hv]

end Validation

/-! ## Compiling -/

namespace Policy

open Validation

variable {override defaults realm : Document}

theorem isShowable_merged (ho : override.isShowable = true) (hd : defaults.isShowable = true) :
    (merged override defaults).isShowable = true := by
  refine Document.isShowable_merge ?_ ho
  split
  · decide
  · exact hd

theorem compile_of_validate_error {r : Rejection}
    (h : (merged override defaults).validate = .error r) :
    compile override defaults realm = .error r := by
  simp only [compile, resolve, h, bind, Except.bind]

/-- A document that can be shown is accepted or refused for a violation, and a policy is
refused only where its merged document is, for the same violation. -/
theorem validate_gates_compile :
    (∀ d : Document, d.isShowable = true →
      d.validate = .ok () ∨ ∃ v, d.violation? = some v ∧ d.validate = .error (.violation v)) ∧
    ∀ override defaults realm : Document, override.DistinctKeys → defaults.IsBase →
      (realm = .null ∨ ∃ s, realm = .text s) →
      ((merged override defaults).validate = .ok () →
        ∃ b, compile override defaults realm = .ok b) ∧
      (∀ r, (merged override defaults).validate = .error r →
        compile override defaults realm = .error r) ∧
      (override.isShowable = true → defaults.isShowable = true →
        ∀ r, compile override defaults realm = .error r →
          ∃ v, (merged override defaults).violation? = some v ∧ r = .violation v) := by
  refine ⟨fun d hd => ?_, fun override defaults realm ho hd hrealm =>
    ⟨fun hvalid => Directive.exists_compile ho hd.distinctKeys hvalid hrealm,
      fun r hr => compile_of_validate_error hr, fun hos hds r hr => ?_⟩⟩
  · rw [validate_of_isShowable hd]
    cases d.violation? with
    | none => exact .inl rfl
    | some v => exact .inr ⟨v, rfl, rfl⟩
  · have hvalidate := validate_of_isShowable (isShowable_merged hos hds)
    cases hv : (merged override defaults).violation? with
    | none =>
      rw [hv] at hvalidate
      obtain ⟨b, hb⟩ := Directive.exists_compile ho hd.distinctKeys hvalidate hrealm
      rw [hb] at hr
      cases hr
    | some v =>
      rw [hv] at hvalidate
      rw [compile_of_validate_error hvalidate] at hr
      exact ⟨v, rfl, (Except.error.inj hr).symm⟩

theorem distinctKeys_hostOverride (name : String) :
    (Directive.hostOverride name).DistinctKeys :=
  distinctKeys_namedEntries (List.nodup_singleton _) (List.forall_mem_singleton.2 <|
    distinctKeys_namedEntries (List.nodup_singleton _) (List.forall_mem_singleton.2 <|
      distinctKeys_namedEntries (List.nodup_singleton _)
        (List.forall_mem_singleton.2 (.scalar _))))

/-- A policy that compiles, and one that is refused for a host that has no address. -/
theorem validate_gates_compile_nowhere :
    (∃ b, compile Directive.mixedOverride .null (.text "Staff") = .ok b) ∧
      ∃ v, (merged (Directive.hostOverride "nowhere") .null).validate = .error (.violation v) ∧
        compile (Directive.hostOverride "nowhere") .null .null = .error (.violation v) := by
  refine ⟨(validate_gates_compile.2 _ _ _ Directive.distinctKeys_mixedOverride
    (Document.isBase_scalar _) (.inr ⟨"Staff", rfl⟩)).1
      (validate_eq_ok_iff.2 (by decide +kernel)), ?_⟩
  obtain ⟨-, hrefused, -⟩ := validate_gates_compile.2 (Directive.hostOverride "nowhere") .null .null
    (distinctKeys_hostOverride _) (Document.isBase_scalar _) (.inl rfl)
  rcases validate_gates_compile.1 (merged (Directive.hostOverride "nowhere") .null)
    (by decide +kernel) with hok | ⟨v, -, herror⟩
  · exact absurd (validate_eq_ok_iff.1 hok) (by decide +kernel)
  · exact ⟨v, herror, hrefused _ herror⟩

end Policy

end AccessPolicy
