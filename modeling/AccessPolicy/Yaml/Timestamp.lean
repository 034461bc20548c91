import AccessPolicy.Calendar
import AccessPolicy.Yaml.Cursor

/-!
# Timestamps

A timestamp is a day, or a day with a time of day, a fraction of a second and a zone. A
text is taken for one (`Timestamp.isTimestamp`) if its month and day have two digits, or a
time of day follows; a text that is marked as one may have shorter fields in both forms.
-/

namespace AccessPolicy.Yaml

/-- The time of day in a timestamp. -/
structure ClockTime where
  hour : Nat
  minute : Nat
  second : Nat
  /-- The digits of the fraction. -/
  fraction : List Char
  /-- Minutes east of universal time. -/
  zone : Option Int

structure Timestamp where
  year : Nat
  month : Nat
  day : Nat
  /-- The month and the day have two digits. -/
  fullWidth : Bool
  time : Option ClockTime

namespace Timestamp

/-! ## Fields -/

/-- The number that decimal digits stand for. -/
def digitsValue (cs : List Char) : Nat :=
  cs.foldl (fun n c => n * 10 + (c.toNat - 48)) 0

/-- At least `least` and at most `most` digits, and the rest. -/
def field? (least most : Nat) (cs : List Char) : Option (List Char × List Char) :=
  let run := (cs.take most).takeWhile Char.isDigit
  if least ≤ run.length then some (run, cs.drop run.length) else none

/-- The character, and the rest after it. -/
def mark? (c : Char) : List Char → Option (List Char)
  | x :: cs => if x = c then some cs else none
  | [] => none

/-- The zone at the end of a timestamp. -/
def zone? (cs : List Char) : Option (Option Int) :=
  match cs.dropWhile isSpacing with
  | [] => if cs.isEmpty then some none else none
  | ['Z'] => some (some 0)
  | sign :: rest => do
    if sign != '+' && sign != '-' then none
    else
      let (hours, rest) ← field? 1 2 rest
      let minutes ← match rest with
        | [] => some []
        | rest => do
          let (minutes, rest) ← field? 2 2 (← mark? ':' rest)
          if rest.isEmpty then some minutes else none
      let n : Int := digitsValue hours * 60 + digitsValue minutes
      some (some (if sign = '-' then -n else n))

/-- The time of day at the end of a timestamp. -/
def clockTime? (cs : List Char) : Option ClockTime := do
  let (hour, rest) ← field? 1 2 cs
  let (minute, rest) ← field? 2 2 (← mark? ':' rest)
  let (second, rest) ← field? 2 2 (← mark? ':' rest)
  let (fraction, rest) := match rest with
    | '.' :: rest => rest.span Char.isDigit
    | rest => ([], rest)
  some ⟨digitsValue hour, digitsValue minute, digitsValue second, fraction, ← zone? rest⟩

/-- The mark between a day and a time of day, and the rest after it. -/
def separator? : List Char → Option (List Char)
  | c :: cs =>
    if c = 'T' ∨ c = 't' then some cs
    else if isSpacing c then some (cs.dropWhile isSpacing)
    else none
  | [] => none

/-- The timestamp that a text is. -/
def ofText? (cs : List Char) : Option Timestamp := do
  let (year, rest) ← field? 4 4 cs
  let (month, rest) ← field? 1 2 (← mark? '-' rest)
  let (day, rest) ← field? 1 2 (← mark? '-' rest)
  let time ← match rest with
    | [] => some none
    | rest => (clockTime? (← separator? rest)).map some
  let fullWidth := month.length = 2 && day.length = 2
  some ⟨digitsValue year, digitsValue month, digitsValue day, fullWidth, time⟩

/-- A text without a mark of its kind is taken for a timestamp. -/
def isTimestamp (cs : List Char) : Bool :=
  match ofText? cs with
  | some t => t.fullWidth || t.time.isSome
  | none => false

/-! ## Values -/

/-- The microseconds of a fraction : its first six digits. -/
def microseconds (fraction : List Char) : Nat :=
  let digits := fraction.take 6
  digitsValue digits * Nat.pow 10 (6 - digits.length)

/-- The day or the moment of a timestamp, where its fields are in range. -/
def scalar (t : Timestamp) : Except Problem Scalar :=
  let date : Date := ⟨t.year, t.month, t.day⟩
  match t.time with
  | none => if date.valid then .ok (.date date) else .error (.fault .badNumeral)
  | some c =>
    let m : Moment :=
      ⟨date, c.hour, c.minute, c.second, microseconds c.fraction, c.zone.map (· * 60000000)⟩
    if m.valid then .ok (.moment m) else .error (.fault .badNumeral)

end Timestamp

end AccessPolicy.Yaml
