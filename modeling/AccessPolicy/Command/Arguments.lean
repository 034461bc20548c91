import AccessPolicy.Text.Digit

/-!
# Command line arguments

The command line is made of words : options for the whole command, the name of a task, and
options for the task. `Request.ofArguments` reads it.

An option has a long name, which may be cut short as long as it stays the only one, or a
letter. The value of an option is the next word, or what follows an equals sign. Letters
may share a word. After a word of two dashes no word is an option.
-/

namespace AccessPolicy.Command

/-- What the command is asked to do. -/
inductive Task where
  | validate
  | compile (json : Bool)
  | apply (confDir : Option String) (dryRun json : Bool)
deriving DecidableEq, Repr

/-- A command line that makes sense. Its words are Unicode text : bytes that are none are left
out. Texts that are empty count as not given. -/
structure Request where
  /-- The configuration directory. -/
  site : Option String
  verbose : Bool
  policy : Option String
  task : Option Task
deriving DecidableEq, Repr

/-- Why a command line is no request. -/
inductive Usage where
  /-- It asks for help. -/
  | help
  | bad
deriving DecidableEq, Repr

/-! ## Options -/

inductive Switch where
  | help
  | site
  | verbose
  | policy
  | confDir
  | dryRun
  | json
deriving DecidableEq, Repr

/-- The switch is followed by a value. -/
def Switch.takesValue : Switch → Bool
  | .site => true
  | .policy => true
  | .confDir => true
  | _ => false

/-- The options that are known at some place. Switches with a letter take no value. -/
structure Options where
  long : List (String × Switch)
  letters : List (Char × Switch)

/-- The options for the whole command. -/
def commandOptions : Options where
  long := [("--help", .help), ("--etc", .site), ("--verbose", .verbose)]
  letters := [('h', .help), ('v', .verbose)]

inductive TaskName where
  | validate
  | compile
  | apply
deriving DecidableEq, Repr

def TaskName.ofText? : String → Option TaskName
  | "validate" => some .validate
  | "compile" => some .compile
  | "apply" => some .apply
  | _ => none

/-- The options for a task. -/
def TaskName.options : TaskName → Options
  | .validate => ⟨[("--help", .help), ("--policy", .policy)], [('h', .help)]⟩
  | .compile => ⟨[("--help", .help), ("--policy", .policy), ("--json", .json)], [('h', .help)]⟩
  | .apply =>
    ⟨[("--help", .help), ("--policy", .policy), ("--conf-dir", .confDir), ("--dry-run", .dryRun),
      ("--json", .json)], [('h', .help)]⟩

/-! ## Words -/

/-- What a word is. -/
inductive Word where
  /-- A word that is no option. -/
  | operand
  /-- Two dashes. -/
  | endMark
  /-- An option with a long name, and what follows an equals sign. -/
  | long (s : Switch) (value : Option String)
  /-- An option with a letter, and what follows the letter. -/
  | letter (s : Switch) (more : Option (List Char))
  | unknown
deriving DecidableEq, Repr

/-- A minus and a number, with a point or without. -/
def isNegativeNumber (cs : List Char) : Bool :=
  match cs with
  | '-' :: body =>
    let body := if body.getLast? = some '\n' then body.dropLast else body
    let isDigit (c : Char) : Bool := (Text.digit? c).isSome
    match body.dropWhile isDigit with
    | [] => !body.isEmpty
    | '.' :: digits => !digits.isEmpty && digits.all isDigit
    | _ => false
  | _ => false

/-- What a word with a dash at its start is if it names no option : a negative number and a
word with a space are operands. -/
def otherWord (cs : List Char) : Word :=
  if isNegativeNumber cs || cs.contains ' ' then .operand else .unknown

/-- A word with two dashes at its start. A name that could stand for several options is an
error. -/
def longWord (os : Options) (cs : List Char) : Except Usage Word :=
  let (name, tail) := cs.span (· != '=')
  let value := if tail.isEmpty then none else some (String.ofList (tail.drop 1))
  match os.long.find? fun o => o.1 = String.ofList cs with
  | some (_, s) => .ok (.long s none)
  | none =>
    match os.long.find? fun o => o.1 = String.ofList name with
    | some (_, s) => .ok (.long s value)
    | none =>
      match os.long.filter fun o => name.isPrefixOf o.1.toList with
      | [] => .ok (otherWord cs)
      | [(_, s)] => .ok (.long s value)
      | _ => .error .bad

/-- A word with one dash at its start, by the letter after the dash and the rest. -/
def letterWord (os : Options) (letter : Char) (rest : List Char) : Word :=
  match os.letters.find? fun o => o.1 = letter with
  | some (_, s) =>
    match rest with
    | [] => .letter s none
    | '=' :: more => .letter s (some more)
    | more => .letter s (some more)
  | none => otherWord ('-' :: letter :: rest)

/-- What a word is. -/
def wordOf (os : Options) (text : String) : Except Usage Word :=
  match text.toList with
  | ['-', '-'] => .ok .endMark
  | '-' :: '-' :: rest => longWord os ('-' :: '-' :: rest)
  | '-' :: letter :: rest => .ok (letterWord os letter rest)
  | _ => .ok .operand

/-- What the words are. After two dashes all of them are operands. -/
def wordsOf (os : Options) : List String → Except Usage (List (String × Word))
  | [] => .ok []
  | text :: texts => do
    match ← wordOf os text with
    | .endMark => return (text, .endMark) :: texts.map fun t => (t, .operand)
    | w => return (text, w) :: (← wordsOf os texts)

/-! ## Reading -/

/-- What was read so far. -/
structure Gathered where
  site : String := ""
  verbose : Bool := false
  policy : String := ""
  confDir : String := ""
  dryRun : Bool := false
  json : Bool := false
  /-- A word was met that has no place. -/
  misplaced : Bool := false

/-- Sets a switch without a value. -/
def Gathered.set (g : Gathered) : Switch → Except Usage Gathered
  | .help => .error .help
  | .verbose => .ok { g with verbose := true }
  | .dryRun => .ok { g with dryRun := true }
  | .json => .ok { g with json := true }
  | _ => .error .bad

/-- Sets a switch to a value. Two dashes for a value count as no value. -/
def Gathered.setTo (g : Gathered) (s : Switch) (value : String) : Except Usage Gathered :=
  let value := if value = "--" then "" else value
  match s with
  | .site => .ok { g with site := value }
  | .policy => .ok { g with policy := value }
  | .confDir => .ok { g with confDir := value }
  | _ => .error .bad

/-- The switches of letters that share a word. -/
def switchesOf (os : Options) : List Char → Except Usage (List Switch)
  | [] => .ok []
  | c :: cs =>
    match os.letters.find? fun o => o.1 = c with
    | some (_, s) => do return s :: (← switchesOf os cs)
    | none => .error .bad

/-- Reads words from left to right, up to the first operand if `stopsAtOperand`, and gives
the words that are left. -/
def gather (os : Options) (stopsAtOperand : Bool) :
    Gathered → List (String × Word) → Except Usage (Gathered × List String)
  | g, [] => .ok (g, [])
  | g, (text, w) :: words =>
    match w with
    | .operand =>
      if stopsAtOperand then .ok (g, text :: words.map (·.1))
      else gather os stopsAtOperand { g with misplaced := true } words
    | .endMark =>
      if stopsAtOperand then .error .bad
      else .ok ({ g with misplaced := true }, [])
    | .unknown => gather os stopsAtOperand { g with misplaced := true } words
    | .letter s more => do
      let more ← match more with
        | some [] => .error .bad
        | some letters => switchesOf os letters
        | none => pure []
      let g ← (s :: more).foldlM Gathered.set g
      gather os stopsAtOperand g words
    | .long s (some value) => do gather os stopsAtOperand (← g.setTo s value) words
    | .long s none =>
      if s.takesValue then
        match words with
        | (value, .operand) :: words => do gather os stopsAtOperand (← g.setTo s value) words
        | _ => .error .bad
      else do gather os stopsAtOperand (← g.set s) words

/-- A text that is not empty. -/
def given (text : String) : Option String :=
  if text = "" then none else some text

/-- The task with what was gathered for it. -/
def TaskName.task (name : TaskName) (g : Gathered) : Task :=
  match name with
  | .validate => .validate
  | .compile => .compile g.json
  | .apply => .apply (given g.confDir) g.dryRun g.json

/-- The request that a command line makes. -/
def Request.ofArguments (arguments : List String) : Except Usage Request := do
  let (g, rest) ← gather commandOptions true {} (← wordsOf commandOptions arguments)
  let (g, task) ← match rest with
    | [] => pure (g, none)
    | name :: arguments =>
      match TaskName.ofText? name with
      | none => .error .bad
      | some name => do
        let (g, _) ← gather name.options false g (← wordsOf name.options arguments)
        pure (g, some (name.task g))
  if g.misplaced then .error .bad
  else return ⟨given g.site, g.verbose, given g.policy, task⟩

end AccessPolicy.Command
