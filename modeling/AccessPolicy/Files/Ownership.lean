import AccessPolicy.Files.Session

/-!
# Owners

A file may be given to an owner and a group, each a name or a number. `Ownership.change`
says how a change of owner ends where only some names are known. The owner of a file is
not part of a file tree, but a change of owner may clear permission bits
(`Ownership.keptBits`).
-/

namespace AccessPolicy.Ownership

/-- The largest number an account may have. -/
def largestNumber : Int := 4294967295

/-- A name is known, or the change fails. -/
def named (known : Text → Bool) (what : String) (name : Text) : Except Failure Unit :=
  if !name.isName then .error (.fault .unencodable)
  else if name.contains '\x00' then .error (.fault .nullCharacter)
  else if known name then .ok ()
  else .error (.lookup ("no such " ++ what ++ ": " ++ Quoted.text name))

/-- A number of an account is in range; minus one leaves the account as it is. -/
def numbered (n : Int) : Except Failure Unit :=
  if -1 ≤ n ∧ n ≤ largestNumber then .ok () else .error (.fault .accountRange)

/-- The owner as far as it is looked up by name. -/
def ownerName (known : Text → Bool) : Document → Except Failure Unit
  | .scalar (.text s) => named known "user" s
  | _ => .ok ()

/-- The group as far as it is looked up by name; what is no number has to be a name. -/
def groupName (known : Text → Bool) : Document → Except Failure Unit
  | .scalar (.text s) => named known "group" s
  | .scalar (.int _) => .ok ()
  | .scalar (.bool _) => .ok ()
  | _ => .error (.fault .noAccount)

/-- What is not looked up by name has to be a number. -/
def number : Document → Except Failure Unit
  | .scalar (.text _) => .ok ()
  | .scalar (.int n) => numbered n
  | .scalar (.bool _) => .ok ()
  | _ => .error (.fault .noAccount)

/-- A change of owner and group. One that counts as not given is left as it is. -/
def change (knowsUser knowsGroup : Text → Bool) (owner group : Document) :
    Except Failure Unit := do
  if owner.isGiven then ownerName knowsUser owner
  if group.isGiven then groupName knowsGroup group
  if owner.isGiven then number owner
  if group.isGiven then number group

/-- The permission bits that are left when the owner or the group was changed : not the one
by which the file runs as its owner, nor the one for its group if the group may run it. -/
def keptBits (mode : Nat) : Nat :=
  mode &&& (if mode &&& 0o010 = 0 then 0o3777 else 0o1777)

end AccessPolicy.Ownership
