import AccessPolicy.Calendar
import AccessPolicy.Decimal.Binary64
import AccessPolicy.Text.CodePoint

/-!
# Scalars and keys

A scalar is a value without parts. A key names an entry of a mapping : it is a scalar or a
tuple of keys, so that keys can always be compared.

Two keys are the same entry if they stand for the same value (`Key.same`) : `1`, `1.0` and
`true` are one key, and a not-a-number is no key's equal.
-/

namespace AccessPolicy

/-- A value without parts. -/
inductive Scalar where
  | null
  | bool (b : Bool)
  | int (n : Int)
  | float (x : Binary64)
  | text (s : Text)
  | bytes (bs : List UInt8)
  | date (d : Date)
  | moment (m : Moment)
deriving DecidableEq, Repr

/-- What may name an entry of a mapping. -/
inductive Key where
  | scalar (s : Scalar)
  | tuple (ks : List Key)

@[match_pattern] abbrev Key.text (s : Text) : Key := .scalar (.text s)

/-- The key is one of the names. -/
def Key.isNamed (names : List Text) : Key → Bool
  | .scalar (.text s) => names.contains s
  | _ => false

/-! ## Sameness -/

/-- What a scalar stands for, apart from how it is written. -/
inductive Scalar.Sense where
  | null
  | integer (n : Int)
  | float (x : Binary64)
  | text (s : Text)
  | bytes (bs : List UInt8)
  | date (d : Date)
  /-- A moment whose distance from universal time is not known. -/
  | localTime (instant : Int)
  | universalTime (instant : Int)
deriving DecidableEq

/-- Truth values and integral floating-point values stand for integers. -/
def Scalar.sense : Scalar → Scalar.Sense
  | .null => .null
  | .bool b => .integer b.toInt
  | .int n => .integer n
  | .float x =>
    match x.integer? with
    | some n => .integer n
    | none => .float x
  | .text s => .text s
  | .bytes bs => .bytes bs
  | .date d => .date d
  | .moment m => if m.offset.isSome then .universalTime m.instant else .localTime m.instant

def Scalar.isNaN : Scalar → Bool
  | .float x => x.isNaN
  | _ => false

/-- The scalars stand for the same value; a not-a-number differs from everything. -/
def Scalar.same (a b : Scalar) : Bool :=
  !a.isNaN && decide (a.sense = b.sense)

mutual

/-- The keys name the same entry. -/
def Key.same : Key → Key → Bool
  | .scalar a, .scalar b => a.same b
  | .tuple as, .tuple bs => Key.sameAll as bs
  | _, _ => false

/-- The keys name the same entries, one by one. -/
def Key.sameAll : List Key → List Key → Bool
  | [], [] => true
  | a :: as, b :: bs => a.same b && Key.sameAll as bs
  | _, _ => false

end

end AccessPolicy
