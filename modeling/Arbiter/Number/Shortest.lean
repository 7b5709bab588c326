import Arbiter.Number.Binary32

/-!
The shortest decimal text of a number: of all decimals that read back as the number, one with
the fewest digits, and of those the nearest. It is written without an exponent.
-/

namespace Arbiter.Number

structure Decimal where
  digits : Nat
  exponent : Int
  deriving DecidableEq, Repr

namespace Decimal

/-- The decimal without exponent: zeros fill the places up to the point. -/
def positional (d : Decimal) : String :=
  let ds := Nat.toDigits 10 d.digits
  if 0 ≤ d.exponent then
    String.ofList (ds ++ List.replicate d.exponent.toNat '0')
  else
    let places := (-d.exponent).toNat
    let padded := List.replicate (places + 1 - ds.length) '0' ++ ds
    let whole := padded.length - places
    String.ofList (padded.take whole) ++ "." ++ String.ofList (padded.drop whole)

end Decimal

/-- The reals that read back as a number, in quarters of the unit of its significand. -/
structure Interval where
  low : Nat
  middle : Nat
  high : Nat
  /-- The exponent of two of a quarter. -/
  exponent : Int
  /-- The ends belong to the interval. -/
  closed : Bool
  deriving DecidableEq, Repr

namespace Binary32

/-- A power of two has a nearer neighbour below. -/
def interval (x : Binary32) : Interval :=
  let m := x.significand
  let narrow := m = 1 <<< 23 && -149 < x.exponent
  { low := 4 * m - (if narrow then 1 else 2)
    middle := 4 * m
    high := 4 * m + 2
    exponent := x.exponent - 2
    closed := m % 2 = 0 }

end Binary32

namespace Interval

def onGrid (i : Interval) (n : Nat) (k : Int) : Nat × Nat :=
  let s := ofScaled n i.exponent
  let t := ofDecimalScaled 1 k
  (s.1 * t.2, s.2 * t.1)

def holds (i : Interval) (c : Nat) (k : Int) : Bool :=
  let lo := i.onGrid i.low k
  let hi := i.onGrid i.high k
  if i.closed then lo.1 ≤ c * lo.2 && c * hi.2 ≤ hi.1
  else lo.1 < c * lo.2 && c * hi.2 < hi.1

/-- The nearer of the two neighbours of the middle on the grid of `10 ^ k` that lie in the
interval; of two equally near ones the upper. -/
def nearestOnGrid (i : Interval) (k : Int) : Option Nat :=
  let v := i.onGrid i.middle k
  let c := v.1 / v.2
  let below := i.holds c k
  let above := i.holds (c + 1) k
  if below && above then
    some (if 2 * (v.1 % v.2) < v.2 then c else c + 1)
  else if below then some c
  else if above then some (c + 1)
  else none

/-- The first grid, from coarse to fine, that meets the interval. -/
def shortest (i : Interval) : Nat → Int → Decimal
  | 0, k => ⟨(i.nearestOnGrid k).getD 0, k⟩
  | finer + 1, k =>
    match i.nearestOnGrid k with
    | some c => if c = 0 then shortest i finer (k - 1) else ⟨c, k⟩
    | none => shortest i finer (k - 1)

end Interval

namespace Binary32

def toDecimal (x : Binary32) : Decimal := x.interval.shortest 93 39

def toText (x : Binary32) : String :=
  if x.isNaN then "NaN"
  else
    let sign := if x.isNegative then "-" else ""
    if x.isInfinite then sign ++ "inf"
    else if x.magnitude = 0 then sign ++ "0"
    else sign ++ x.toDecimal.positional

end Binary32

end Arbiter.Number
