import Mathlib.Data.List.TakeWhile
import AccessPolicy.Proofs.Policy.Compiled
import AccessPolicy.Proofs.Policy.Language
import AccessPolicy.Proofs.Text.Lines

/-!
# Authentication directives

The authentication block of an accepted document is the lines of what the document and the
realm say of the enabled methods (`Authentication.ofMethods`, `Policy.auth_of_compile`).

Six of the texts on these lines are the site's and the policy's own. Quoting puts a backslash
in front of quotes and backslashes and leaves line feeds alone. The connection mode is the one
text that the validator knows, so the block has a line feed for every directive and one for every
line feed in those six (`Policy.count_auth`). That its lines are its directives and no others
stands and falls with them (`Policy.auth_lines_iff`).
-/

namespace AccessPolicy

/-! ## What the block shows -/

/-- The text of a field, empty where it holds no text. -/
def Entries.textOf (es : Entries) (name : Text) : Text :=
  (es.getD name).text?.getD []

namespace Directive

/-- The directive with a quoted argument, left out where the argument is empty. -/
def givenLine (name argument : Text) : List Text :=
  if argument = [] then [] else [name ++ " " ++ quote argument]

/-- What the directives of the directory method show. -/
structure DirectoryServer where
  url : Text
  security : Text
  bindDn : Text
  bindPassword : Text
  searchBase : Text
  posixGroup : Bool

namespace DirectoryServer

/-- The search address. -/
def address (s : DirectoryServer) : Text :=
  trimEnd '/' s.url ++ (if s.searchBase = [] then [] else .char '/' :: s.searchBase) ++ "?uid"

/-- The connection mode with a blank in front. -/
def mode (s : DirectoryServer) : Text :=
  if s.security = [] ∨ s.security = "NONE" then [] else .char ' ' :: s.security

/-- The directives of the directory method, which may have to provide Basic authentication. -/
def lines (s : DirectoryServer) (basic : Bool) : List Text :=
  let provider : List Text := if basic then ["AuthBasicProvider ldap"] else []
  let search : Text := "AuthLDAPURL " ++ quote s.address ++ s.mode
  provider ++ search :: givenLine "AuthLDAPBindDN" s.bindDn ++
    givenLine "AuthLDAPBindPassword" s.bindPassword ++ groupLines (.bool s.posixGroup)

/-- What the fields of an accepted directory method say. -/
def ofConfig (config : Entries) : DirectoryServer where
  url := config.textOf "url"
  security := config.textOf "security"
  bindDn := config.textOf "bind_dn"
  bindPassword := config.textOf "bind_pw"
  searchBase := config.textOf "search_base"
  posixGroup := (config.flag "posix_group").isGiven

/-- The texts that are the policy's own. -/
def texts (s : DirectoryServer) : List Text :=
  [s.url, s.searchBase, s.bindDn, s.bindPassword]

end DirectoryServer

/-- What the authentication block shows, of the methods that are enabled. -/
structure Authentication where
  realm : Text
  userFile : Option Text
  server : Option DirectoryServer

namespace Authentication

/-- The directives of the file method. -/
def fileLines (a : Authentication) : List Text :=
  match a.userFile with
  | some path => ["AuthDigestProvider file", "AuthUserFile " ++ quote path]
  | none => []

/-- The directives of the directory method. -/
def serverLines (a : Authentication) : List Text :=
  match a.server with
  | some s => s.lines a.userFile.isNone
  | none => []

/-- The type of authentication. -/
def typeLine (a : Authentication) : Text :=
  "AuthType " ++ (if a.userFile.isSome then "Digest" else "Basic")

/-- The directives, none where no method is enabled. -/
def lines (a : Authentication) : List Text :=
  if a.userFile.isNone && a.server.isNone then []
  else a.typeLine :: ("AuthName " ++ quote a.realm) :: a.fileLines ++ a.serverLines

/-- What the methods of an accepted document and the realm say. -/
def ofMethods (methods : Entries) (realm : Document) : Authentication where
  realm := (realm.orText defaultRealm).text?.getD []
  userFile :=
    if Validation.isEnabled methods .file then
      some ((Validation.configOf methods .file).textOf "user_file")
    else none
  server :=
    if Validation.isEnabled methods .ldap then
      some (.ofConfig (Validation.configOf methods .ldap))
    else none

/-- How many directives there are. -/
def lineCount (a : Authentication) : Nat :=
  if a.userFile.isNone && a.server.isNone then 0
  else
    2 + (if a.userFile.isSome then 2 else 0) +
      match a.server with
      | some s => 3 + (if a.userFile.isNone then 1 else 0) + (if s.bindDn = [] then 0 else 1) +
          (if s.bindPassword = [] then 0 else 1)
      | none => 0

/-- The texts on the lines that are the site's and the policy's own. -/
def texts (a : Authentication) : List Text :=
  if a.userFile.isNone && a.server.isNone then []
  else a.realm :: a.userFile.toList ++ a.server.elim [] DirectoryServer.texts

end Authentication

/-! ## Lines of texts -/

section Lines

theorem optionalLine_text (name s : Text) :
    optionalLine name (.text s) = .ok (givenLine name s) := by
  cases s with
  | nil => rfl
  | cons c s => rfl

theorem ldapUrl_text {m : LdapMethod} {s : DirectoryServer} (hurl : m.url = .text s.url)
    (hbase : m.searchBase = .text s.searchBase) : ldapUrl m = .ok s.address := by
  unfold ldapUrl DirectoryServer.address
  rw [hurl, hbase]
  cases s.searchBase with
  | nil => rfl
  | cons c base => rfl

theorem securitySuffix_text (s : DirectoryServer) :
    securitySuffix (.text s.security) = .ok s.mode := by
  unfold securitySuffix DirectoryServer.mode
  cases hs : s.security with
  | nil => rfl
  | cons c mode =>
    by_cases hnone : c :: mode = ("NONE" : Text)
    · rw [hnone]
      rfl
    · rw [if_pos (by simp [Document.isGiven, Document.layer, Document.text?, hnone]),
        if_neg (by simp [hnone])]
      rfl

/-- What is quoted is a text. -/
theorem eq_quote_of_quoteDocument {d : Document} {name : Text} (h : quoteDocument d = .ok name) :
    name = quote (d.text?.getD []) := by
  unfold quoteDocument at h
  split at h <;> cases h
  rfl

/-- The directives of a method whose fields are texts. -/
theorem ldapLines_text {m : LdapMethod} {s : DirectoryServer} (hurl : m.url = .text s.url)
    (hsecurity : m.security = .text s.security) (hbindDn : m.bindDn = .text s.bindDn)
    (hbindPassword : m.bindPassword = .text s.bindPassword)
    (hbase : m.searchBase = .text s.searchBase) (hgroup : m.posixGroup.isGiven = s.posixGroup)
    (basic : Bool) : ldapLines m basic = .ok (s.lines basic) := by
  have hlines : groupLines m.posixGroup = groupLines (.bool s.posixGroup) := by
    rw [groupLines, hgroup]
    rfl
  unfold ldapLines DirectoryServer.lines
  rw [ldapUrl_text hurl hbase, hsecurity, securitySuffix_text, hbindDn, optionalLine_text,
    hbindPassword, optionalLine_text, hlines]
  rfl

/-- The lines are those of what the enabled methods show. -/
theorem eq_lines_of_authLines {ms : Methods} {realm : Document} {a : Authentication}
    {lines : List Text} (hrealm : a.realm = (realm.orText defaultRealm).text?.getD [])
    (hfile : Option.Rel (fun m path => fileLines m =
        .ok ["AuthDigestProvider file", "AuthUserFile " ++ quote path])
      (ms.file.filter fun m => m.enabled.isGiven) a.userFile)
    (hserver : Option.Rel (fun m s => ∀ basic, ldapLines m basic = .ok (s.lines basic))
      (ms.ldap.filter fun m => m.enabled.isGiven) a.server)
    (hlines : authLines ms realm = .ok lines) : lines = a.lines := by
  obtain ⟨name, userFile, server⟩ := a
  unfold authLines at hlines
  generalize (ms.file.filter fun m => m.enabled.isGiven) = file at hfile hlines
  generalize (ms.ldap.filter fun m => m.enabled.isGiven) = ldap at hserver hlines
  dsimp only at hrealm hfile hserver
  subst hrealm
  cases hfile with
  | none =>
    cases hserver with
    | none => exact (Except.ok.inj hlines).symm
    | some hs =>
      obtain ⟨q, hq, hlines⟩ := bind_eq_ok hlines
      obtain rfl := eq_quote_of_quoteDocument hq
      dsimp only at hlines
      rw [hs] at hlines
      exact (Except.ok.inj hlines).symm
  | some hf =>
    cases hserver with
    | none =>
      obtain ⟨q, hq, hlines⟩ := bind_eq_ok hlines
      obtain rfl := eq_quote_of_quoteDocument hq
      dsimp only at hlines
      rw [hf] at hlines
      exact (Except.ok.inj hlines).symm
    | some hs =>
      obtain ⟨q, hq, hlines⟩ := bind_eq_ok hlines
      obtain rfl := eq_quote_of_quoteDocument hq
      dsimp only at hlines
      rw [hf, hs] at hlines
      exact (Except.ok.inj hlines).symm

end Lines

/-! ## What accepted methods say -/

end Directive

open Directive

theorem Document.getD_text?_of_not_given {d : Document} (h : d.isGiven = false) :
    d.text?.getD [] = [] := by
  unfold text?
  split
  · next s => simpa [isGiven, layer] using h
  · rfl

theorem Entries.textField_eq {es : Entries} {name : Text}
    (h : ∃ s, es.textField name = .text s) : es.textField name = .text (es.textOf name) := by
  unfold textField textOf Document.orText at *
  split_ifs at h ⊢ with hgiven
  · obtain ⟨s, hs⟩ := h
    rw [hs]
    rfl
  · rw [Document.getD_text?_of_not_given (by simpa using hgiven)]
    rfl

namespace Validation.AcceptedMethods

variable {methods : Entries} (h : AcceptedMethods methods)

include h

/-- The method of a kind is kept for the block if it is enabled. -/
theorem filter_enabled {α : Type} (kind : MethodKind) {m : α} (enabled : α → Document)
    (hm : enabled m = (configOf methods kind).flag "enabled") :
    (((methods.get? kind.name).map fun _ => m).filter fun m => (enabled m).isGiven) =
      if isEnabled methods kind then some m else none := by
  cases hd : methods.get? kind.name with
  | none =>
    have hconfig : configOf methods kind = [] := by
      rw [configOf, Entries.getD, hd]
      rfl
    rw [isEnabled, hconfig]
    rfl
  | some d =>
    have hgiven : (enabled m).isGiven = isEnabled methods kind := by
      rw [hm, Bool.eq_iff_iff]
      refine ⟨h.isEnabled_of_isGiven kind hd, fun henabled => ?_⟩
      rw [Entries.flag, isEnabled_iff_get?.1 henabled]
      rfl
    rw [Option.map_some, Option.filter_some, hgiven]

theorem fileLines_eq (henabled : isEnabled methods .file = true) :
    Directive.fileLines (.ofEntries (configOf methods .file)) =
      .ok ["AuthDigestProvider file",
        "AuthUserFile " ++ quote ((configOf methods .file).textOf "user_file")] := by
  have htext : (FileMethod.ofEntries (configOf methods .file)).userFile = .text _ :=
    Entries.textField_eq (h.texts .file henabled _ List.mem_cons_self)
  rw [Directive.fileLines, htext]
  rfl

theorem ldapLines_eq (henabled : isEnabled methods .ldap = true) (basic : Bool) :
    ldapLines (.ofEntries (configOf methods .ldap)) basic =
      .ok ((DirectoryServer.ofConfig (configOf methods .ldap)).lines basic) := by
  have htext : ∀ name ∈ textFields .ldap, (configOf methods .ldap).textField name =
      .text ((configOf methods .ldap).textOf name) := fun name hname =>
    Entries.textField_eq (h.texts .ldap henabled name hname)
  exact ldapLines_text (htext "url" (by decide)) (htext "security" (by decide))
    (htext "bind_dn" (by decide)) (htext "bind_pw" (by decide)) (htext "search_base" (by decide))
    rfl basic

/-- The lines of an accepted document's methods are those of what it says. -/
theorem lines_eq {realm : Document} {lines : List Text}
    (hlines : authLines (methodsOf methods) realm = .ok lines) :
    lines = (Authentication.ofMethods methods realm).lines := by
  refine eq_lines_of_authLines rfl ?_ ?_ hlines
  · have hfile : (methodsOf methods).file.filter (fun m => m.enabled.isGiven) = _ :=
      h.filter_enabled .file FileMethod.enabled rfl
    rw [hfile, Authentication.ofMethods]
    dsimp only
    split_ifs with henabled
    · exact .some (h.fileLines_eq henabled)
    · exact .none
  · have hldap : (methodsOf methods).ldap.filter (fun m => m.enabled.isGiven) = _ :=
      h.filter_enabled .ldap LdapMethod.enabled rfl
    rw [hldap, Authentication.ofMethods]
    dsimp only
    split_ifs with henabled
    · exact .some (h.ldapLines_eq henabled)
    · exact .none

end Validation.AcceptedMethods

/-! ## Line feeds -/

namespace Directive

/-- The line feeds in the lines or texts. -/
def feedsIn (ts : List Text) : Nat :=
  (ts.map fun t => t.count (.char '\n')).sum

theorem feedsIn_nil : feedsIn [] = 0 :=
  rfl

theorem feedsIn_cons (t : Text) (ts : List Text) :
    feedsIn (t :: ts) = t.count (.char '\n') + feedsIn ts := by
  simp [feedsIn]

theorem feedsIn_append (ts us : List Text) : feedsIn (ts ++ us) = feedsIn ts + feedsIn us := by
  simp [feedsIn]

theorem feedsIn_eq_zero_iff {ts : List Text} :
    feedsIn ts = 0 ↔ ∀ t ∈ ts, CodePoint.char '\n' ∉ t := by
  simp [feedsIn, List.sum_eq_zero_iff_forall_eq_nat, List.count_eq_zero]

theorem count_escape (c : CodePoint) : (escape c).count (.char '\n') = [c].count (.char '\n') := by
  unfold escape
  split
  · rw [List.count_cons_of_ne (by decide)]
  · rfl

/-- Quoting leaves line feeds alone. -/
theorem count_quote (s : Text) : (quote s).count (.char '\n') = s.count (.char '\n') := by
  have hescape : (s.flatMap escape).count (.char '\n') = s.count (.char '\n') := by
    induction s with
    | nil => rfl
    | cons c s ih =>
      rw [List.flatMap_cons, List.count_append, count_escape, ih, ← List.count_append]
      rfl
  rw [quote, List.count_append, List.count_cons_of_ne (by decide), hescape]
  rfl

theorem count_directive (name : Text) (hname : CodePoint.char '\n' ∉ name) (s : Text) :
    (name ++ quote s).count (.char '\n') = s.count (.char '\n') := by
  rw [List.count_append, List.count_eq_zero.2 hname, count_quote, Nat.zero_add]

theorem count_trimEnd {c : CodePoint} (hc : c ≠ .char '\n') (s : Text) :
    (trimEnd c s).count (.char '\n') = s.count (.char '\n') := by
  have htrimmed : (s.reverse.takeWhile (· == c)).count (.char '\n') = 0 := by
    refine List.count_eq_zero.2 fun hmem => ?_
    have hfeed : CodePoint.char '\n' = c := by simpa using List.mem_takeWhile_imp hmem
    exact hc hfeed.symm
  have hsplit := congrArg (List.count (.char '\n'))
    (List.takeWhile_append_dropWhile (p := (· == c)) (l := s.reverse))
  rw [List.count_append, htrimmed, Nat.zero_add, List.count_reverse] at hsplit
  rw [trimEnd, List.count_reverse, hsplit]

theorem feedsIn_givenLine (name : Text) (hname : CodePoint.char '\n' ∉ name) (s : Text) :
    feedsIn (givenLine name s) = s.count (.char '\n') := by
  unfold givenLine
  split_ifs with hs
  · rw [hs]
    rfl
  · rw [feedsIn_cons, feedsIn_nil, Nat.add_zero]
    refine count_directive _ ?_ s
    rw [List.mem_append, not_or]
    exact ⟨hname, by decide⟩

namespace DirectoryServer

variable (s : DirectoryServer)

theorem count_address : s.address.count (.char '\n') =
    s.url.count (.char '\n') + s.searchBase.count (.char '\n') := by
  have hbase : (if s.searchBase = [] then [] else CodePoint.char '/' :: s.searchBase).count
      (.char '\n') = s.searchBase.count (.char '\n') := by
    split_ifs with h
    · rw [h]
    · exact List.count_cons_of_ne (by decide)
  rw [address, List.count_append, List.count_append, count_trimEnd (by decide), hbase]
  rfl

/-- The directives hold the line feeds of the policy's own texts. -/
theorem feedsIn_lines {basic : Bool} (hmode : CodePoint.char '\n' ∉ s.mode) :
    feedsIn (s.lines basic) = feedsIn s.texts := by
  have hprovider : feedsIn (if basic then ["AuthBasicProvider ldap"] else []) = 0 := by
    cases basic <;> decide
  have hgroup : feedsIn (groupLines (.bool s.posixGroup)) = 0 := by
    cases s.posixGroup <;> decide
  have hsearch : (("AuthLDAPURL " : Text) ++ quote s.address ++ s.mode).count (.char '\n') =
      s.address.count (.char '\n') := by
    rw [List.count_append, count_directive _ (by decide), List.count_eq_zero.2 hmode]
    rfl
  unfold lines texts
  simp only [feedsIn_append, feedsIn_cons, feedsIn_nil, hprovider, hsearch, hgroup,
    feedsIn_givenLine "AuthLDAPBindDN" (by decide),
    feedsIn_givenLine "AuthLDAPBindPassword" (by decide), count_address]
  omega

theorem length_lines (basic : Bool) : (s.lines basic).length =
    3 + (if basic then 1 else 0) + (if s.bindDn = [] then 0 else 1) +
      (if s.bindPassword = [] then 0 else 1) := by
  unfold lines givenLine groupLines
  split_ifs <;> simp

end DirectoryServer

/-- The connection mode of an accepted method is one of the known ones. -/
theorem DirectoryServer.not_mem_mode {config : Entries} (h : IsDirectoryConfig config) :
    CodePoint.char '\n' ∉ (ofConfig config).mode := by
  have hmode : (ofConfig config).security ∈ [] :: securityModes := by
    show config.textOf "security" ∈ _
    unfold Entries.textOf Entries.getD
    cases hd : config.get? "security" with
    | none => exact List.mem_cons_self
    | some d =>
      rcases h.security d hd with hgiven | ⟨mode, hmem, rfl⟩
      · rw [Option.getD_some, Document.getD_text?_of_not_given hgiven]
        exact List.mem_cons_self
      · exact List.mem_cons_of_mem _ hmem
  unfold mode
  generalize (ofConfig config).security = security at hmode
  revert security
  decide

namespace Authentication

variable (a : Authentication)

theorem lines_eq_nil_iff : a.lines = [] ↔ a.userFile = none ∧ a.server = none := by
  unfold lines
  split_ifs with hnone
  · simpa using hnone
  · refine iff_of_false (by simp) ?_
    simpa using hnone

theorem length_lines : a.lines.length = a.lineCount := by
  obtain ⟨realm, userFile, server⟩ := a
  cases userFile with
  | none =>
    cases server with
    | none => rfl
    | some s => simp [lines, lineCount, fileLines, serverLines, s.length_lines]; omega
  | some path =>
    cases server with
    | none => rfl
    | some s => simp [lines, lineCount, fileLines, serverLines, s.length_lines]; omega

theorem feedsIn_fileLines : feedsIn a.fileLines = feedsIn a.userFile.toList := by
  unfold fileLines
  cases a.userFile with
  | none => rfl
  | some path =>
    have hprovider : ("AuthDigestProvider file" : Text).count (.char '\n') = 0 := by decide
    simp only [feedsIn_cons, feedsIn_nil, Option.toList_some, hprovider, Nat.zero_add]
    rw [count_directive _ (by decide)]

theorem feedsIn_serverLines
    (hmode : ∀ s, a.server = some s → CodePoint.char '\n' ∉ s.mode) :
    feedsIn a.serverLines = feedsIn (a.server.elim [] DirectoryServer.texts) := by
  unfold serverLines
  cases hs : a.server with
  | none => rfl
  | some s => exact s.feedsIn_lines (hmode s hs)

/-- The directives hold the line feeds of the site's and the policy's own texts. -/
theorem feedsIn_lines (hmode : ∀ s, a.server = some s → CodePoint.char '\n' ∉ s.mode) :
    feedsIn a.lines = feedsIn a.texts := by
  have htype : a.typeLine.count (.char '\n') = 0 := by
    unfold typeLine
    split_ifs <;> decide
  unfold lines texts
  split_ifs
  · rfl
  · simp only [feedsIn_append, feedsIn_cons, htype, count_directive "AuthName "
      (by decide), a.feedsIn_fileLines, a.feedsIn_serverLines hmode, Nat.zero_add]

end Authentication

end Directive

/-! ## The block -/

namespace Policy

/-- What the authentication block of the merged document shows. -/
def authentication (override defaults realm : Document) : Directive.Authentication :=
  .ofMethods ((merged override defaults).sectionEntries "methods") realm

variable {override defaults realm : Document} (ho : override.DistinctKeys)
  (hd : defaults.IsBase) {b : Blocks} (hb : compile override defaults realm = .ok b)

include ho hd hb

/-- The authentication block is the lines of what it shows. -/
theorem auth_of_compile : b.auth = Text.ofLines (authentication override defaults realm).lines := by
  obtain ⟨hvalid, hblocks⟩ := (compile_eq_ok_iff ho hd.distinctKeys).1 hb
  obtain ⟨auth, hauth, hblocks⟩ := bind_eq_ok hblocks
  obtain ⟨limits, -, hblocks⟩ := bind_eq_ok hblocks
  obtain ⟨lines, hlines, hauth⟩ := bind_eq_ok hauth
  rw [← Except.ok.inj hblocks, ← Except.ok.inj hauth,
    (Validation.accepted_of_validate hvalid).methods.lines_eq hlines]
  rfl

/-- The connection mode that the block shows has no line feed, as the validator knows it. -/
theorem not_mem_mode {s : Directive.DirectoryServer}
    (hs : (authentication override defaults realm).server = some s) :
    CodePoint.char '\n' ∉ s.mode := by
  obtain ⟨hvalid, -⟩ := (compile_eq_ok_iff ho hd.distinctKeys).1 hb
  have hmethods := Validation.methodsStage_eq_none_iff.1
    (Validation.validate_eq_ok_iff_stages.1 hvalid).2.1
  unfold authentication Directive.Authentication.ofMethods at hs
  dsimp only at hs
  split_ifs at hs with henabled
  obtain ⟨hsection, htrue⟩ := Validation.isEnabled_iff_section.1 henabled
  rw [← Option.some.inj hs]
  exact Directive.DirectoryServer.not_mem_mode (hmethods.complete .ldap _ hsection htrue)

/-- One line feed for every directive, and those in the site's and the policy's own texts. -/
theorem count_auth : b.auth.count (.char '\n') =
    (authentication override defaults realm).lineCount +
      Directive.feedsIn (authentication override defaults realm).texts := by
  rw [auth_of_compile ho hd hb, Text.count_ofLines, Directive.Authentication.length_lines,
    ← Directive.Authentication.feedsIn_lines _ fun s => not_mem_mode ho hd hb]
  rfl

/-- Cut at its line feeds the block is its directives, as many as there are to be, if and only if
there is no line feed in the realm, the user file, the address of the server, the search base, the
bind name and the bind password of the enabled methods. -/
theorem auth_lines_iff :
    (Text.split (.char '\n') b.auth = (authentication override defaults realm).lines ++ [[]] ∧
      b.auth.count (.char '\n') = (authentication override defaults realm).lineCount) ↔
    ∀ t ∈ (authentication override defaults realm).texts, CodePoint.char '\n' ∉ t := by
  rw [count_auth ho hd hb, ← Directive.feedsIn_eq_zero_iff, Nat.add_eq_left]
  refine ⟨And.right, fun hzero => ⟨?_, hzero⟩⟩
  rw [auth_of_compile ho hd hb]
  rw [← Directive.Authentication.feedsIn_lines _ fun s => not_mem_mode ho hd hb] at hzero
  exact Text.split_ofLines (Directive.feedsIn_eq_zero_iff.1 hzero)

omit ho hd hb

/-- A user file, and a directory server that is asked under a name of its own. -/
def staffOverride : Document :=
  .mapping (namedEntries [("methods", .mapping (namedEntries [
    ("file", .mapping (namedEntries [
      ("enabled", .bool true), ("user_file", .text "/etc/users")])),
    ("ldap", .mapping (namedEntries [
      ("enabled", .bool true), ("url", .text "ldap://directory/"),
      ("bind_dn", .text "cn=web"), ("posix_group", .bool true)]))]))])

theorem distinctKeys_staffOverride : staffOverride.DistinctKeys := by
  refine distinctKeys_namedEntries (by decide) (List.forall_mem_singleton.2 ?_)
  refine distinctKeys_namedEntries (by decide) (List.forall_mem_cons.2
    ⟨?_, List.forall_mem_singleton.2 ?_⟩)
  · exact distinctKeys_namedEntries (by decide) (List.forall_mem_cons.2
      ⟨.scalar _, List.forall_mem_singleton.2 (.scalar _)⟩)
  · exact distinctKeys_namedEntries (by decide) (List.forall_mem_cons.2
      ⟨.scalar _, List.forall_mem_cons.2 ⟨.scalar _, List.forall_mem_cons.2
        ⟨.scalar _, List.forall_mem_singleton.2 (.scalar _)⟩⟩⟩)

/-- Eight directives and as many lines. -/
theorem auth_lines_staffOverride : ∃ b, compile staffOverride .null (.text "Staff") = .ok b ∧
    Text.split (.char '\n') b.auth =
      (authentication staffOverride .null (.text "Staff")).lines ++ [[]] ∧
    b.auth.count (.char '\n') = (authentication staffOverride .null (.text "Staff")).lineCount := by
  have hcompiles : (compile staffOverride .null (.text "Staff")).toOption.isSome = true := by
    decide +kernel
  cases hb : compile staffOverride .null (.text "Staff") with
  | error r =>
    rw [hb] at hcompiles
    cases hcompiles
  | ok b =>
    have htexts : ∀ t ∈ (authentication staffOverride .null (.text "Staff")).texts,
        CodePoint.char '\n' ∉ t := by
      decide +kernel
    exact ⟨b, rfl, (auth_lines_iff distinctKeys_staffOverride
      (Document.isBase_scalar _) hb).2 htexts⟩

/-- A user file at this path. -/
def fileOverride (path : Text) : Document :=
  .mapping (namedEntries [("methods", .mapping (namedEntries [
    ("file", .mapping (namedEntries [("enabled", .bool true), ("user_file", .text path)]))]))])

/-- A path with a line feed is accepted, and the block has a directive that no setting stands
for. -/
theorem injected_directive : ∃ b,
    compile (fileOverride "/u\nRequire all granted\n#") .null .null = .ok b ∧
      Text.ofString "Require all granted" ∈ Text.split (.char '\n') b.auth ∧
      ¬(Text.split (.char '\n') b.auth =
          (authentication (fileOverride "/u\nRequire all granted\n#") .null .null).lines ++ [[]] ∧
        b.auth.count (.char '\n') =
          (authentication (fileOverride "/u\nRequire all granted\n#") .null .null).lineCount) := by
  have hlines : ((compile (fileOverride "/u\nRequire all granted\n#") .null .null).toOption.map
      fun b => ((Text.split (.char '\n') b.auth).contains "Require all granted",
        b.auth.count (.char '\n'))) = some (true, 6) := by
    decide +kernel
  have hcount : (authentication (fileOverride "/u\nRequire all granted\n#") .null
      .null).lineCount = 4 := by
    decide +kernel
  cases hb : compile (fileOverride "/u\nRequire all granted\n#") .null .null with
  | error r =>
    rw [hb] at hlines
    cases hlines
  | ok b =>
    rw [hb] at hlines
    obtain ⟨hline, hfeeds⟩ := Prod.mk.inj (Option.some.inj hlines)
    refine ⟨b, rfl, List.contains_iff_mem.1 hline, fun h => ?_⟩
    exact absurd (hfeeds.symm.trans (h.2.trans hcount)) (by decide)

end Policy

end AccessPolicy
