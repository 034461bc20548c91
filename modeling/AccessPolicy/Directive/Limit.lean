import AccessPolicy.Policy.Limits
import AccessPolicy.Text.Split

/-!
# Limit directives

The limit block : for each group of principals a section for its operations, in which any
one of its principals suffices, and at the end a section that denies every operation no
group is granted. Without principals the block is empty.

`Directive.limitLines` lists the lines of a list of groups and `Directive.limitBlock` puts
those of `Limits` together.
-/

namespace AccessPolicy.Directive

/-- One step of indentation. -/
def indent : Text := "    "

/-- The directive that admits a principal. -/
def requireLine (c : PrincipalClass) (name : Text) : Text :=
  match c with
  | .hosts => "Require ip " ++ name
  | .users => if name = validUser then "Require valid-user" else "Require user " ++ name
  | .ldapGroups => "Require ldap-group " ++ name

/-- A class name that is none of the three. -/
structure UnknownClass where
  name : Text

def UnknownClass.message (e : UnknownClass) : Text :=
  "Unknown principal class: " ++ e.name

/-- The directive that admits a principal whose class is given by name. -/
def requireLineOf (className name : Text) : Except UnknownClass Text :=
  match PrincipalClass.ofName? className with
  | some c => .ok (requireLine c name)
  | none => .error ⟨className⟩

/-- The section that admits, for these operations, whoever meets one of the requirements. -/
def limitSection (ops requirements : List Text) : List Text :=
  ["<Limit " ++ Text.joined " " ops ++ ">", indent ++ "<RequireAny>"] ++
    requirements.map (fun line => indent ++ indent ++ line) ++
    [indent ++ "</RequireAny>", "</Limit>"]

/-- The section that denies every operation but these. -/
def exceptSection (ops : List Text) : List Text :=
  ["<LimitExcept " ++ Text.joined " " (Operations.canonical ops) ++ ">",
   indent ++ "Require all denied", "</LimitExcept>"]

/-- The section of one group. -/
def groupSection (g : Group) : List Text :=
  limitSection g.operations (g.principals.map fun p => requireLine p.kind p.name)

/-- The operations that the groups are granted together. -/
def granted (gs : List Group) : List Text :=
  gs.flatMap Group.operations

/-- The lines of the limit block of a list of groups. -/
def limitLines (gs : List Group) : List Text :=
  gs.flatMap groupSection ++ exceptSection (granted gs)

/-- The limit block; empty where nobody is granted anything. -/
def limitBlock (l : Limits) : Except Fault Text :=
  if l.isEmpty then .ok []
  else do return Text.ofLines (limitLines (← l.groups))

end AccessPolicy.Directive
