import Arbiter.Number.Rounding

/-!
Binary floating point numbers of 32 bits, given by their word: a sign, eight bits of exponent
and 23 of fraction. The comparison reads the word as sign and magnitude, so the two zeros are
equal and a number that is none compares with nothing.
-/

namespace Arbiter.Number

structure Binary32 where
  bits : UInt32
  deriving DecidableEq, Repr

namespace Binary32

def word (x : Binary32) : Nat := x.bits.toNat

def isNegative (x : Binary32) : Bool := 1 <<< 31 ≤ x.word

def magnitude (x : Binary32) : Nat := x.word % 1 <<< 31

def infiniteMagnitude : Nat := 255 * 1 <<< 23

def isNaN (x : Binary32) : Bool := infiniteMagnitude < x.magnitude

def isInfinite (x : Binary32) : Bool := x.magnitude = infiniteMagnitude

/-- The place of a number in the order of all numbers. -/
def orderKey (x : Binary32) : Int :=
  if x.isNegative then -(x.magnitude : Int) else x.magnitude

/-- Strictly less; false as soon as one side is not a number. -/
def less (x y : Binary32) : Bool :=
  !x.isNaN && !y.isNaN && decide (x.orderKey < y.orderKey)

def significand (x : Binary32) : Nat :=
  if x.magnitude < 1 <<< 23 then x.magnitude else x.magnitude % 1 <<< 23 + 1 <<< 23

/-- The exponent of the unit of the significand. -/
def exponent (x : Binary32) : Int :=
  if x.magnitude < 1 <<< 23 then -149 else (x.magnitude / 1 <<< 23 : Nat) - 150

def ofParts (negative : Bool) (magnitude : Nat) : Binary32 :=
  ⟨UInt32.ofNat (magnitude + if negative then 1 <<< 31 else 0)⟩

def nan : Binary32 := ofParts false (infiniteMagnitude + 1 <<< 22)

def infinity (negative : Bool) : Binary32 := ofParts negative infiniteMagnitude

def zero (negative : Bool) : Binary32 := ofParts negative 0

/-- The number `m · 2 ^ e` for a significand and exponent of the format; infinite when the
exponent is beyond the range. -/
def encode (negative : Bool) (m : Nat) (e : Int) : Binary32 :=
  if m < 1 <<< 23 then ofParts negative m
  else if 104 < e then infinity negative
  else ofParts negative ((e + 150).toNat * 1 <<< 23 + (m - 1 <<< 23))

def ofQuotient (negative : Bool) (num den : Nat) : Binary32 :=
  let r := Format.single.round num den
  encode negative r.1 r.2

def ofInt (z : Int) : Binary32 := ofQuotient (decide (z < 0)) z.natAbs 1

end Binary32

end Arbiter.Number
