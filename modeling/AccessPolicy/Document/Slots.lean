import AccessPolicy.Document.Key

/-!
# Sets in slots

The members of a set stand in a table whose width is a power of two, each in the slot that
its hash leads to or, where that one is taken, in one that is found from there
(`Slots.freeSlot`). Wherever the members are listed, they come slot by slot, so that numbers
that are led to slots of their own come in one order however the set was written.

A set that is made of the keys of a mapping starts with a table that is wide enough for all
of them (`Slots.ofKeys`); a copy of a set grows member by member (`Slots.ofCopy`). Only
numbers have a hash, and a set with another member keeps the order in which it was written.
-/

namespace AccessPolicy

/-! ## Hashes -/

/-- The prime that numbers are reduced by. -/
def hashPrime : Nat := Nat.pow 2 61 - 1

/-- The hash of a number with this residue, as a word of 64 bits. Minus one is no hash. -/
def hashOfResidue (negative : Bool) (residue : Nat) : Nat :=
  let h : Int := if negative then -residue else residue
  ((if h = -1 then -2 else h) % Int.pow 2 64).toNat

/-- The residue of a finite value, where two to the power of 61 counts as one. -/
def Magnitude.residue (x : Magnitude) : Nat :=
  x.m * Nat.pow 2 (x.q % 61).toNat % hashPrime

/-- The hash of a number; equal numbers have equal hashes. -/
def Scalar.hash? : Scalar → Option Nat
  | .bool b => some b.toNat
  | .int n => some (hashOfResidue (n < 0) (n.natAbs % hashPrime))
  | .float x =>
    if x.isNaN then none
    else if x.isInfinite then some (hashOfResidue x.isNegative 314159)
    else some (hashOfResidue x.isNegative x.magnitude.residue)
  | _ => none

def Key.hash? : Key → Option Nat
  | .scalar s => s.hash?
  | .tuple _ => none

/-! ## Tables -/

/-- A table of members with their hashes. -/
structure Slots where
  slots : Array (Option (Nat × Key))
  /-- How many slots are taken. -/
  count : Nat := 0

namespace Slots

/-- A table of free slots. -/
def ofWidth (width : Nat) : Slots :=
  ⟨Array.replicate width none, 0⟩

/-- The width of a table for more than `n` members : a power of two, and at least eight. -/
def widthOver (n : Nat) : Nat :=
  Nat.pow 2 (max 3 (Nat.log2 n + 1))

def width (t : Slots) : Nat :=
  t.slots.size

/-- The members with their hashes, slot by slot. -/
def entries (t : Slots) : List (Nat × Key) :=
  t.slots.toList.filterMap id

def isFree (t : Slots) (i : Nat) : Bool :=
  ((t.slots[i]?).join).isNone

/-- The first free slot from `i` on that a member is led to. Nine neighbours are tried where
there are as many, and then a slot elsewhere, which depends on `spread`. The fuel bounds the
number of places that are tried. -/
def freeSlot (t : Slots) : (fuel i spread : Nat) → Nat
  | 0, i, _ => i
  | fuel + 1, i, spread =>
    let reach := if i + 9 < t.width then 10 else 1
    match (List.range reach).find? fun k => t.isFree (i + k) with
    | some k => i + k
    | none =>
      let spread := spread / 32
      freeSlot t fuel ((i * 5 + 1 + spread) % t.width) spread

/-- The table with one more member. -/
def put (t : Slots) (e : Nat × Key) : Slots :=
  let i := t.freeSlot (t.width + 16) (e.1 % t.width) e.1
  ⟨t.slots.setIfInBounds i (some e), t.count + 1⟩

/-- So many members are too many for a table of this width. -/
def isCrowded (width count : Nat) : Bool :=
  (width - 1) * 3 ≤ count * 5

/-- The table with one more member; a crowded one is replaced by a wider one. -/
def insert (t : Slots) (e : Nat × Key) : Slots :=
  let t := t.put e
  if isCrowded t.width t.count then
    t.entries.foldl put (ofWidth (widthOver (t.count * 4)))
  else t

/-! ## Sets -/

/-- The members as a set lists them that starts with a table of this width. -/
def listed (width : Nat) (ks : List Key) : List Key :=
  match ks.mapM fun k => k.hash?.map (·, k) with
  | some es => (es.foldl insert (ofWidth width)).entries.map (·.2)
  | none => ks

/-- The members of a set that is made of the keys of a mapping. -/
def ofKeys (ks : List Key) : List Key :=
  let least := widthOver 0
  listed (if isCrowded least ks.length then widthOver (ks.length * 2) else least) ks

/-- The members of the copy of a set. -/
def ofCopy (ks : List Key) : List Key :=
  listed (widthOver 0) ks

end Slots

end AccessPolicy
