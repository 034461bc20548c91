import AccessPolicy.Proofs.Directive.Authentication
import AccessPolicy.Proofs.Directive.Limit
import AccessPolicy.Proofs.Directive.Quoted

/-!
# What an authentication block shows

The authentication block, read back line by line. A line is the name of a directive, a blank and
its arguments (`AuthDirective.line`), and a directive is read off it (`AuthDirective.ofLine?`).
The directives show the realm, the user file and the directory server (`Shown.ofDirectives`), and
those of what is to be shown show all of it again (`Shown.ofDirectives_directives`).

`Policy.auth_shows` : an accepted document with an enabled method compiles to a block that is
read back to what the document says of the enabled methods, if there is no line feed in the texts
that the block takes from it. The type is the first directive and stands there once, and the
directives of the file method come before those of the directory method.
-/

namespace AccessPolicy

namespace Directive

/-! ## Single directives -/

/-- The kinds of directives in authentication blocks. -/
inductive AuthKind where
  | authType
  | authName
  | digestProvider
  | userFile
  | basicProvider
  | search
  | bindDn
  | bindPassword
  | groupIsDn
  | groupAttribute
deriving DecidableEq

namespace AuthKind

def name : AuthKind → Text
  | authType => "AuthType"
  | authName => "AuthName"
  | digestProvider => "AuthDigestProvider"
  | userFile => "AuthUserFile"
  | basicProvider => "AuthBasicProvider"
  | search => "AuthLDAPURL"
  | bindDn => "AuthLDAPBindDN"
  | bindPassword => "AuthLDAPBindPassword"
  | groupIsDn => "AuthLDAPGroupAttributeIsDN"
  | groupAttribute => "AuthLDAPGroupAttribute"

def all : List AuthKind :=
  [authType, authName, digestProvider, userFile, basicProvider, search, bindDn, bindPassword,
   groupIsDn, groupAttribute]

/-- The kind with this name. -/
def ofName? (name : Text) : Option AuthKind :=
  all.find? fun kind => kind.name = name

theorem ofName?_name (k : AuthKind) : ofName? k.name = some k := by
  cases k <;> decide +kernel

theorem name_ne_blank (k : AuthKind) : ∀ c ∈ k.name, (c != .char ' ') = true := by
  cases k <;> decide +kernel

end AuthKind

/-- The directives of authentication blocks. -/
inductive AuthDirective where
  | authType (digest : Bool)
  | authName (realm : Text)
  | digestProvider
  | userFile (path : Text)
  | basicProvider
  | search (address : Text) (mode : Option Text)
  | bindDn (dn : Text)
  | bindPassword (password : Text)
  | groupIsDn (isDn : Bool)
  | groupAttribute (member : Text)

namespace AuthDirective

def kind : AuthDirective → AuthKind
  | authType _ => .authType
  | authName _ => .authName
  | digestProvider => .digestProvider
  | userFile _ => .userFile
  | basicProvider => .basicProvider
  | search _ _ => .search
  | bindDn _ => .bindDn
  | bindPassword _ => .bindPassword
  | groupIsDn _ => .groupIsDn
  | groupAttribute _ => .groupAttribute

def arguments : AuthDirective → Text
  | authType digest => if digest then "Digest" else "Basic"
  | authName realm => quote realm
  | digestProvider => "file"
  | userFile path => quote path
  | basicProvider => "ldap"
  | search address mode => quote address ++ mode.elim [] (.char ' ' :: ·)
  | bindDn dn => quote dn
  | bindPassword password => quote password
  | groupIsDn isDn => if isDn then "on" else "off"
  | groupAttribute member => member

def line (d : AuthDirective) : Text :=
  d.kind.name ++ .char ' ' :: d.arguments

/-- The text that is quoted as a whole. -/
def quoted? (arguments : Text) : Option Text :=
  match argument? arguments with
  | some (s, []) => some s
  | _ => none

/-- The one of two words that stands for true, or the other. -/
def choice? (yes no arguments : Text) : Option Bool :=
  if arguments = yes then some true else if arguments = no then some false else none

/-- A quoted address, and the connection mode behind a blank. -/
def search? (arguments : Text) : Option AuthDirective :=
  match argument? arguments with
  | some (address, []) => some (.search address none)
  | some (address, c :: mode) => if c = .char ' ' then some (.search address (some mode)) else none
  | none => none

/-- The directive of this kind with these arguments. -/
def ofArguments? (arguments : Text) : AuthKind → Option AuthDirective
  | .authType => (choice? "Digest" "Basic" arguments).map authType
  | .authName => (quoted? arguments).map authName
  | .digestProvider => if arguments = "file" then some digestProvider else none
  | .userFile => (quoted? arguments).map userFile
  | .basicProvider => if arguments = "ldap" then some basicProvider else none
  | .search => search? arguments
  | .bindDn => (quoted? arguments).map bindDn
  | .bindPassword => (quoted? arguments).map bindPassword
  | .groupIsDn => (choice? "on" "off" arguments).map groupIsDn
  | .groupAttribute => some (groupAttribute arguments)

/-- The name that a line begins with. -/
def nameOf (line : Text) : Text :=
  line.takeWhile (· != .char ' ')

/-- The directive on a line. -/
def ofLine? (line : Text) : Option AuthDirective :=
  (AuthKind.ofName? (nameOf line)).bind
    (ofArguments? ((line.dropWhile (· != .char ' ')).drop 1))

theorem quoted?_quote (s : Text) : quoted? (quote s) = some s := by
  rw [quoted?, argument?_quote]

theorem search?_quote (address : Text) (mode : Option Text) :
    search? (quote address ++ mode.elim [] (.char ' ' :: ·)) = some (.search address mode) := by
  rw [search?, argument?_quote_append]
  cases mode <;> rfl

theorem ofArguments?_arguments (d : AuthDirective) :
    ofArguments? d.arguments d.kind = some d := by
  cases d with
  | authType digest => cases digest <;> rfl
  | authName realm => exact congrArg (Option.map _) (quoted?_quote realm)
  | digestProvider => rfl
  | userFile path => exact congrArg (Option.map _) (quoted?_quote path)
  | basicProvider => rfl
  | search address mode => exact search?_quote address mode
  | bindDn dn => exact congrArg (Option.map _) (quoted?_quote dn)
  | bindPassword password => exact congrArg (Option.map _) (quoted?_quote password)
  | groupIsDn isDn => cases isDn <;> rfl
  | groupAttribute member => rfl

theorem nameOf_line (d : AuthDirective) : nameOf d.line = d.kind.name := by
  rw [nameOf, line, List.takeWhile_append_of_pos d.kind.name_ne_blank,
    List.takeWhile_cons_of_neg (by simp), List.append_nil]

/-- A directive is read off its line. -/
theorem ofLine?_line (d : AuthDirective) : ofLine? d.line = some d := by
  have hrest : (d.line.dropWhile (· != .char ' ')).drop 1 = d.arguments := by
    rw [line, List.dropWhile_append_of_pos d.kind.name_ne_blank,
      List.dropWhile_cons_of_neg (by simp)]
    rfl
  rw [ofLine?, nameOf_line, hrest, AuthKind.ofName?_name, Option.bind_some,
    ofArguments?_arguments]

theorem line_injective : Function.Injective line := by
  intro d e h
  exact Option.some.inj (by rw [← ofLine?_line d, h, ofLine?_line e])

end AuthDirective

/-! ## What directives show -/

/-- What a block shows of the directory server. -/
structure ShownServer where
  address : Text
  mode : Option Text
  bindDn : Option Text
  bindPassword : Option Text
  posixGroup : Bool

/-- What a block shows : the realm, and a user file and a directory server where their methods
are enabled. -/
structure Shown where
  realm : Text
  userFile : Option Text
  server : Option ShownServer

/-- The directives of the directory method, which may have to provide Basic authentication. -/
def ShownServer.directives (s : ShownServer) (basic : Bool) : List AuthDirective :=
  (if basic then [.basicProvider] else []) ++ .search s.address s.mode ::
    s.bindDn.toList.map .bindDn ++ s.bindPassword.toList.map .bindPassword ++
    [.groupIsDn (!s.posixGroup), .groupAttribute (if s.posixGroup then "memberUid" else "member")]

namespace Shown

/-- The directives of the file method. -/
def fileDirectives (s : Shown) : List AuthDirective :=
  s.userFile.toList.flatMap fun path => [.digestProvider, .userFile path]

/-- The directives of the directory method, which provides Basic authentication if there is no
file method. -/
def serverDirectives (s : Shown) : List AuthDirective :=
  s.server.toList.flatMap fun server => server.directives s.userFile.isNone

/-- The directives that show this. -/
def directives (s : Shown) : List AuthDirective :=
  .authType s.userFile.isSome :: .authName s.realm :: (s.fileDirectives ++ s.serverDirectives)

/-- What directives show of the directory server. -/
def serverOf? (ds : List AuthDirective) : Option ShownServer := do
  let (address, mode) ← ds.findSome? fun
    | .search address mode => some (address, mode)
    | _ => none
  return {
    address := address
    mode := mode
    bindDn := ds.findSome? fun | .bindDn dn => some dn | _ => none
    bindPassword := ds.findSome? fun | .bindPassword password => some password | _ => none
    posixGroup := ds.any fun | .groupIsDn isDn => !isDn | _ => false }

/-- What directives show. -/
def ofDirectives (ds : List AuthDirective) : Option Shown := do
  let realm ← ds.findSome? fun | .authName realm => some realm | _ => none
  return {
    realm := realm
    userFile := ds.findSome? fun | .userFile path => some path | _ => none
    server := serverOf? ds }

/-- What the lines of a block show. -/
def ofLines? (lines : List Text) : Option Shown := do
  ofDirectives (← lines.mapM AuthDirective.ofLine?)

/-- What is shown by directives comes back from them. -/
theorem ofDirectives_directives (s : Shown) : ofDirectives s.directives = some s := by
  obtain ⟨realm, userFile, server⟩ := s
  cases server with
  | none => cases userFile <;> rfl
  | some server =>
    obtain ⟨address, mode, bindDn, bindPassword, posixGroup⟩ := server
    cases userFile <;> cases bindDn <;> cases bindPassword <;> cases posixGroup <;> rfl

theorem mapM_ofLine? : ∀ ds : List AuthDirective,
    (ds.map AuthDirective.line).mapM AuthDirective.ofLine? = some ds
  | [] => rfl
  | d :: ds => by
    rw [List.map_cons, List.mapM_cons, d.ofLine?_line, mapM_ofLine? ds]
    rfl

theorem ofLines?_directives (s : Shown) :
    ofLines? (s.directives.map AuthDirective.line) = some s := by
  rw [ofLines?, mapM_ofLine?]
  exact s.ofDirectives_directives

end Shown

/-! ## The order of directives -/

/-- The directives of the file method. -/
def fileNames : List Text := ["AuthDigestProvider", "AuthUserFile"]

/-- The directives of the directory method. -/
def serverNames : List Text :=
  ["AuthBasicProvider", "AuthLDAPURL", "AuthLDAPBindDN", "AuthLDAPBindPassword",
   "AuthLDAPGroupAttributeIsDN", "AuthLDAPGroupAttribute"]

/-- The lines stand in order : the type is the first of them and given once, and it is Digest if
the file method is enabled. The file method comes before the directory method, which provides
Basic authentication if it is on its own. -/
structure InOrder (lines : List Text) (s : Shown) : Prop where
  first : lines.head? = some (if s.userFile.isSome then "AuthType Digest" else "AuthType Basic")
  once : (lines.map AuthDirective.nameOf).count ("AuthType" : Text) = 1
  fileFirst : (lines.map AuthDirective.nameOf).Pairwise fun name name' =>
    name ∈ serverNames → name' ∉ fileNames
  provider : ("AuthBasicProvider ldap" : Text) ∈ lines ↔ s.server.isSome ∧ s.userFile = none

theorem ShownServer.name_mem (s : ShownServer) (basic : Bool) :
    ∀ d ∈ s.directives basic, d.kind.name ∈ serverNames := by
  obtain ⟨address, mode, bindDn, bindPassword, posixGroup⟩ := s
  cases basic <;> cases bindDn <;> cases bindPassword <;>
    simp [directives, AuthDirective.kind, AuthKind.name, serverNames]

namespace Shown

variable (s : Shown)

theorem name_mem_fileNames : ∀ d ∈ s.fileDirectives, d.kind.name ∈ fileNames := by
  cases h : s.userFile <;> simp [fileDirectives, h, AuthDirective.kind, AuthKind.name, fileNames]

theorem name_mem_serverNames : ∀ d ∈ s.serverDirectives, d.kind.name ∈ serverNames := by
  intro d hd
  obtain ⟨server, -, hd⟩ := List.mem_flatMap.1 hd
  exact server.name_mem _ d hd

theorem count_authType : (s.directives.map fun d => d.kind.name).count ("AuthType" : Text) = 1 := by
  have hfile : ∀ name ∈ fileNames, name ≠ ("AuthType" : Text) := by decide +kernel
  have hserver : ∀ name ∈ serverNames, name ≠ ("AuthType" : Text) := by decide +kernel
  have hrest : ("AuthType" : Text) ∉
      (s.fileDirectives ++ s.serverDirectives).map fun d => d.kind.name := by
    intro hmem
    obtain ⟨d, hd, heq⟩ := List.mem_map.1 hmem
    rcases List.mem_append.1 hd with hd | hd
    · exact hfile _ (s.name_mem_fileNames d hd) heq
    · exact hserver _ (s.name_mem_serverNames d hd) heq
  rw [directives, List.map_cons, List.map_cons]
  show List.count ("AuthType" : Text) ("AuthType" :: "AuthName" :: _) = 1
  rw [List.count_cons_self, List.count_cons_of_ne (by decide), List.count_eq_zero.2 hrest]

/-- No directive of the directory method stands before one of the file method. -/
theorem pairwise_directives : (s.directives.map fun d => d.kind.name).Pairwise
    fun name name' => name ∈ serverNames → name' ∉ fileNames := by
  have hhead : ("AuthType" : Text) ∉ serverNames ∧ ("AuthName" : Text) ∉ serverNames := by
    decide +kernel
  have hfile : ∀ name ∈ fileNames, name ∉ serverNames := by decide +kernel
  have hserver : ∀ name ∈ serverNames, name ∉ fileNames := by decide +kernel
  rw [List.pairwise_map]
  refine List.pairwise_cons.2 ⟨fun _ _ h => absurd h hhead.1, List.pairwise_cons.2
    ⟨fun _ _ h => absurd h hhead.2, List.pairwise_append.2 ⟨?_, ?_, ?_⟩⟩⟩
  · exact List.pairwise_of_forall_mem_list fun d hd _ _ h =>
      absurd h (hfile _ (s.name_mem_fileNames d hd))
  · exact List.pairwise_of_forall_mem_list fun _ _ d hd _ =>
      hserver _ (s.name_mem_serverNames d hd)
  · exact fun d hd _ _ h => absurd h (hfile _ (s.name_mem_fileNames d hd))

theorem mem_directives_basicProvider :
    AuthDirective.basicProvider ∈ s.directives ↔ s.server.isSome ∧ s.userFile = none := by
  obtain ⟨realm, userFile, server⟩ := s
  cases userFile <;> cases server <;>
    simp [directives, fileDirectives, serverDirectives, ShownServer.directives]

/-- The directives of what is shown stand in order. -/
theorem inOrder : InOrder (s.directives.map AuthDirective.line) s := by
  have hnames : (s.directives.map AuthDirective.line).map AuthDirective.nameOf =
      s.directives.map fun d => d.kind.name := by
    simp [Function.comp_def, AuthDirective.nameOf_line]
  refine ⟨?_, hnames ▸ s.count_authType, hnames ▸ s.pairwise_directives, ?_⟩
  · cases h : s.userFile <;> simp [directives, h] <;> rfl
  · exact (List.mem_map_of_injective (a := .basicProvider) AuthDirective.line_injective).trans
      s.mem_directives_basicProvider

end Shown

/-! ## What a document's block shows -/

/-- The text, where there is one. -/
def given? (t : Text) : Option Text :=
  if t = [] then none else some t

/-- What the directives of a directory method show. -/
def DirectoryServer.shown (s : DirectoryServer) : ShownServer where
  address := s.address
  mode := if s.security = [] ∨ s.security = "NONE" then none else some s.security
  bindDn := given? s.bindDn
  bindPassword := given? s.bindPassword
  posixGroup := s.posixGroup

/-- What the directives show. -/
def Authentication.shown (a : Authentication) : Shown where
  realm := a.realm
  userFile := a.userFile
  server := a.server.map DirectoryServer.shown

theorem DirectoryServer.mode_eq_elim (s : DirectoryServer) :
    s.mode = s.shown.mode.elim [] (.char ' ' :: ·) := by
  show s.mode = (if s.security = [] ∨ s.security = "NONE" then none else some s.security).elim _ _
  unfold mode
  split <;> rfl

theorem givenLine_eq_map {name : Text} {f : Text → AuthDirective}
    (hf : ∀ t, name ++ " " ++ quote t = (f t).line) (t : Text) :
    givenLine name t = ((given? t).toList.map f).map AuthDirective.line := by
  unfold givenLine given?
  split
  · rfl
  · rw [hf]
    rfl

theorem DirectoryServer.lines_eq_map (s : DirectoryServer) (basic : Bool) :
    s.lines basic = (s.shown.directives basic).map AuthDirective.line := by
  have hprovider : (if basic then ["AuthBasicProvider ldap"] else [] : List Text) =
      (if basic then [AuthDirective.basicProvider] else []).map AuthDirective.line := by
    cases basic <;> rfl
  have hsearch : "AuthLDAPURL " ++ quote s.address ++ s.mode =
      (AuthDirective.search s.shown.address s.shown.mode).line := by
    rw [s.mode_eq_elim, List.append_assoc]
    rfl
  have hdn := @givenLine_eq_map "AuthLDAPBindDN" .bindDn (fun _ => rfl) s.bindDn
  have hpassword := @givenLine_eq_map "AuthLDAPBindPassword" .bindPassword (fun _ => rfl)
    s.bindPassword
  have hgroup : groupLines (.bool s.posixGroup) = [AuthDirective.groupIsDn (!s.posixGroup),
      .groupAttribute (if s.posixGroup then "memberUid" else "member")].map AuthDirective.line := by
    cases s.posixGroup <;> rfl
  unfold lines ShownServer.directives
  dsimp only
  rw [hprovider, hsearch, hdn, hpassword, hgroup]
  simp only [List.map_append, List.map_cons]
  rfl

theorem Authentication.lines_eq_map {a : Authentication}
    (h : a.userFile.isSome ∨ a.server.isSome) :
    a.lines = a.shown.directives.map AuthDirective.line := by
  have htype : a.typeLine = (AuthDirective.authType a.userFile.isSome).line := by
    unfold typeLine
    generalize a.userFile.isSome = digest
    revert digest
    decide
  have hfile : a.fileLines = a.shown.fileDirectives.map AuthDirective.line := by
    unfold fileLines Shown.fileDirectives shown
    cases a.userFile <;> rfl
  have hserver : a.serverLines = a.shown.serverDirectives.map AuthDirective.line := by
    unfold serverLines Shown.serverDirectives shown
    cases a.server with
    | none => rfl
    | some s => simp [s.lines_eq_map]
  have hsome : ¬(a.userFile.isNone && a.server.isNone) = true := by
    cases hu : a.userFile <;> cases hs : a.server <;> simp_all
  rw [lines, if_neg hsome, htype, hfile, hserver, Shown.directives, List.map_cons, List.map_cons,
    List.map_append]
  rfl

end Directive

namespace Policy

open Directive

/-- An accepted document and a realm, if any, with an enabled method, and no line feed in the
realm and the texts of the enabled methods. -/
structure Authenticates (override defaults realm : Document) : Prop where
  override_distinct : override.DistinctKeys
  defaults_base : defaults.IsBase
  valid : (merged override defaults).validate = .ok ()
  realm_text : realm = .null ∨ ∃ s, realm = .text s
  enabled : ∃ kind, Validation.isEnabled
    ((merged override defaults).sectionEntries "methods") kind = true
  no_feed : ∀ t ∈ (authentication override defaults realm).texts, CodePoint.char '\n' ∉ t

variable {override defaults realm : Document}

theorem Authenticates.isSome (h : Authenticates override defaults realm) :
    (authentication override defaults realm).userFile.isSome ∨
      (authentication override defaults realm).server.isSome := by
  obtain ⟨kind, henabled⟩ := h.enabled
  unfold authentication Authentication.ofMethods
  cases kind with
  | file => exact .inl (by rw [if_pos henabled]; rfl)
  | ldap => exact .inr (by rw [if_pos henabled]; rfl)

/-- The lines of the block of such a document are the directives of what it shows. -/
theorem Authenticates.split_auth (h : Authenticates override defaults realm) {b : Blocks}
    (hb : compile override defaults realm = .ok b) : Text.split (.char '\n') b.auth =
      (authentication override defaults realm).shown.directives.map AuthDirective.line ++ [[]] := by
  have hfeeds := feedsIn_eq_zero_iff.2 h.no_feed
  rw [← Authentication.feedsIn_lines _ fun s =>
    not_mem_mode h.override_distinct h.defaults_base hb] at hfeeds
  rw [auth_of_compile h.override_distinct h.defaults_base hb,
    Text.split_ofLines (feedsIn_eq_zero_iff.1 hfeeds), Authentication.lines_eq_map h.isSome]

/-- The block of such a document is read back to what it shows, from lines that stand in order,
and no other such document has the same block and shows something else. -/
theorem auth_shows (h : Authenticates override defaults realm) :
    ∃ b lines, compile override defaults realm = .ok b ∧
      Text.split (.char '\n') b.auth = lines ++ [[]] ∧
      Shown.ofLines? lines = some (authentication override defaults realm).shown ∧
      InOrder lines (authentication override defaults realm).shown ∧
      ∀ {override' defaults' realm' : Document} {b' : Blocks},
        Authenticates override' defaults' realm' → compile override' defaults' realm' = .ok b' →
        b'.auth = b.auth → (authentication override' defaults' realm').shown =
          (authentication override defaults realm).shown := by
  obtain ⟨b, hb⟩ := exists_compile h.override_distinct h.defaults_base.distinctKeys h.valid
    h.realm_text
  refine ⟨b, _, hb, h.split_auth hb, Shown.ofLines?_directives _, Shown.inOrder _, ?_⟩
  intro override' defaults' realm' b' h' hb' heq
  have hlines := h'.split_auth hb'
  rw [heq, h.split_auth hb] at hlines
  have hsame := congrArg Shown.ofLines? (List.append_cancel_right hlines)
  rw [Shown.ofLines?_directives, Shown.ofLines?_directives] at hsame
  exact (Option.some.inj hsame).symm

/-- A digest user file beside a directory server. -/
theorem auth_shows_staffOverride : ∃ b lines,
    compile staffOverride .null (.text "Staff") = .ok b ∧
      Text.split (.char '\n') b.auth = lines ++ [[]] ∧
      Shown.ofLines? lines = some (authentication staffOverride .null (.text "Staff")).shown := by
  have hauthenticates : Authenticates staffOverride .null (.text "Staff") := {
    override_distinct := distinctKeys_staffOverride
    defaults_base := Document.isBase_scalar _
    valid := Validation.validate_eq_ok_iff.2 (by decide +kernel)
    realm_text := .inr ⟨_, rfl⟩
    enabled := ⟨.file, by decide +kernel⟩
    no_feed := by decide +kernel }
  obtain ⟨b, lines, hb, hsplit, hread, -⟩ := auth_shows hauthenticates
  exact ⟨b, lines, hb, hsplit, hread⟩

end Policy

end AccessPolicy
