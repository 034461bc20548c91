import AccessPolicy.Document.Text

/-!
# Faults

What an operation on documents of unknown kind may run into. A policy that was validated
does not lead to any of these; a value that nobody checked may.
-/

namespace AccessPolicy

/-- Why an operation cannot be carried out on a value. -/
inductive Fault where
  /-- Entries were asked of a value that is no mapping. -/
  | noEntries
  /-- Named fields were asked of a value that is no mapping. -/
  | noFields
  /-- Members were asked of a value that has none. -/
  | noMembers
  /-- A value that cannot be a key was to be a member of a set. -/
  | noKey
  /-- A value that is no text was to be read as one. -/
  | noText
  /-- A value that looks like a text, as bytes and dates do, was to be edited as one. -/
  | noEditing
  /-- A name outside the vocabulary was to be put in order. -/
  | noOperation
  /-- Names that are not all texts were to be listed. -/
  | noNames
  /-- A value that is no path was to be the directory of a file. -/
  | noPath
  /-- Permission bits that are no integer. -/
  | noMode
  /-- Permission bits too large for the file system. -/
  | modeRange
  /-- An owner that is neither a name nor a number. -/
  | noAccount
  /-- The number of an account that is out of range. -/
  | accountRange
  /-- A value that JSON has no form for. -/
  | noJson
  /-- A value that contains itself was to be written as JSON. -/
  | circular
  /-- An integer of too many digits to be shown. -/
  | longNumeral
  /-- A numeral that cannot be read, or a field out of range. -/
  | badNumeral
  /-- An empty numeral. -/
  | emptyNumeral
  /-- A word that is no truth value. -/
  | badTruthValue
  /-- A text that is no date. -/
  | badDate
  /-- A mapping was to be read as a date. -/
  | noPattern
  /-- A number too large for its format. -/
  | overflow
  /-- Collections inside each other to a depth that is not read. -/
  | tooDeep
  /-- A method has no field of this name. -/
  | unknownField
  /-- A name with the character that ends names. -/
  | nullCharacter
  /-- A half in a text that is to be written as bytes. -/
  | unencodable
  /-- Bytes that are no UTF-8 text. -/
  | badEncoding
  /-- A directory where a file was to be read. -/
  | directory
  /-- The list of staged files is empty where its first one is to be named. -/
  | nothingStaged
deriving DecidableEq, Repr

/-- The members of a document that has members. -/
def Document.members (d : Document) : Except Fault (List Document) :=
  match d.members? with
  | some ms => .ok ms
  | none => .error .noMembers

/-- The document as a message shows it, if it can be shown. -/
def Document.shownText (d : Document) : Except Fault Text :=
  if d.isShowable then .ok d.shown else .error .longNumeral

/-- The entries of a document; one that counts as not given has none. -/
def Document.givenEntries (d : Document) : Except Fault Entries :=
  match d.entries? with
  | some es => .ok es
  | none => if d.isGiven then .error .noEntries else .ok []

end AccessPolicy
