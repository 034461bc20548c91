import AccessPolicy.Text.Numeral

/-!
# Dates and times of day

Days of the proleptic Gregorian calendar in the years 1 to 9999, and moments made of a day,
a time of day and, if known, the distance from universal time. `Date.valid` and
`Moment.valid` decide which field values are a day or a moment; the texts are those that
messages and answers show.
-/

namespace AccessPolicy

structure Date where
  year : Nat
  month : Nat
  day : Nat
deriving DecidableEq, Repr

namespace Date

def isLeap (year : Nat) : Bool :=
  year % 4 == 0 && (year % 100 != 0 || year % 400 == 0)

def daysInMonth (year month : Nat) : Nat :=
  if month == 2 then (if isLeap year then 29 else 28)
  else if [4, 6, 9, 11].contains month then 30
  else 31

/-- The fields are those of a day. -/
def valid (d : Date) : Bool :=
  1 ≤ d.year && d.year ≤ 9999 && 1 ≤ d.month && d.month ≤ 12 &&
    1 ≤ d.day && d.day ≤ daysInMonth d.year d.month

/-- Days before the first of January of the year. -/
def daysBeforeYear (year : Nat) : Nat :=
  let y := year - 1
  y * 365 + y / 4 - y / 100 + y / 400

/-- The number of the day, counted from the first day of the year 1. -/
def ordinal (d : Date) : Nat :=
  let months := List.range (d.month - 1)
  months.foldl (fun n m => n + daysInMonth d.year (m + 1)) (daysBeforeYear d.year) + d.day

/-- The day as `YYYY-MM-DD`. -/
def text (d : Date) : String :=
  Text.padded 4 d.year ++ "-" ++ Text.padded 2 d.month ++ "-" ++ Text.padded 2 d.day

end Date

structure Moment where
  date : Date
  hour : Nat
  minute : Nat
  second : Nat
  microsecond : Nat
  /-- Microseconds east of universal time, where they are known. -/
  offset : Option Int
deriving DecidableEq, Repr

namespace Moment

/-- The fields are those of a moment; the offset is less than a day. -/
def valid (m : Moment) : Bool :=
  m.date.valid && m.hour < 24 && m.minute < 60 && m.second < 60 &&
    match m.offset with
    | none => true
    | some n => n.natAbs < 86400 * 1000000

/-- Microseconds since the start of the year 1, in universal time. -/
def instant (m : Moment) : Int :=
  let seconds : Int := m.date.ordinal * 86400 + m.hour * 3600 + m.minute * 60 + m.second
  seconds * 1000000 + m.microsecond - m.offset.getD 0

/-- An offset as `+HH:MM`, with seconds and their fraction where they are not zero; empty
where it is not known. -/
def offsetText : Option Int → String
  | none => ""
  | some n =>
    let seconds := n.natAbs / 1000000
    let fraction := n.natAbs % 1000000
    (if n < 0 then "-" else "+") ++ Text.padded 2 (seconds / 3600) ++ ":" ++
      Text.padded 2 (seconds / 60 % 60) ++
      (if seconds % 60 = 0 ∧ fraction = 0 then "" else ":" ++ Text.padded 2 (seconds % 60)) ++
      (if fraction = 0 then "" else "." ++ Text.padded 6 fraction)

/-- The moment with the given sign between its day and its time. -/
def textWith (separator : String) (m : Moment) : String :=
  m.date.text ++ separator ++ Text.padded 2 m.hour ++ ":" ++ Text.padded 2 m.minute ++ ":" ++
    Text.padded 2 m.second ++
    (if m.microsecond = 0 then "" else "." ++ Text.padded 6 m.microsecond) ++
    offsetText m.offset

end Moment

end AccessPolicy
