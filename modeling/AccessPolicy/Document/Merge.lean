import AccessPolicy.Document.View

/-!
# Merging documents

`Document.merge base override` lays an override over a base. Where both are mappings they
merge entry by entry : an entry of the base keeps its place, and new entries follow in the
order of the override. Null as the whole override changes nothing. Anywhere else the
override replaces the base, so a list given to a principal is replaced and never extended.

What becomes of a base with a mapping that contains itself is left out : here it is replaced
whole. An override may contain itself, and is laid over a base as deep as the base goes.
-/

namespace AccessPolicy

/-- The entries of an override that the base does not have. -/
def Entries.added (bs os : Entries) : Entries :=
  os.filter fun e => !Entries.has e.1 bs

mutual

/-- The base with the override laid over it. -/
def Document.merge : (base override : Document) → Document
  | base, .null => base
  | .mapping bs, override =>
    match override.entries? with
    | some os => .mapping (Entries.overlaid os bs ++ Entries.added bs os)
    | none => override
  | _, override => override

/-- The entries of the base, each with what the entries `os` lay over it. -/
def Entries.overlaid (os : Entries) : List (Key × Document) → List (Key × Document)
  | [] => []
  | (k, b) :: bs =>
    let v := match Entries.lookup k os with
      | none => b
      | some v => if b.isMapping && v.isMapping then Document.merge b v else v
    (k, v) :: Entries.overlaid os bs

end

end AccessPolicy
