/-!
Rounding of a quotient to a binary format: a significand of bounded length times a power of
two that is not below the format's least one. Halves go to the even significand.
-/

namespace Arbiter.Number

/-- The quotient rounded to the nearest integer, halves to the even one. -/
def roundDiv (num den : Nat) : Nat :=
  let q := num / den
  let r := num % den
  if 2 * r < den then q
  else if den < 2 * r then q + 1
  else if q % 2 = 0 then q else q + 1

/-- The rounded quotient is at most half a unit away. -/
theorem roundDiv_near (num : Nat) {den : Nat} (h : 0 < den) :
    2 * num ≤ 2 * (den * roundDiv num den) + den ∧
      2 * (den * roundDiv num den) ≤ 2 * num + den := by
  have hd := Nat.div_add_mod num den
  have hm := Nat.mod_lt num h
  unfold roundDiv
  simp only
  split
  · omega
  · split
    · rw [Nat.mul_add]; omega
    · split
      · omega
      · rw [Nat.mul_add]; omega

def scaleBy (num den : Nat) (e : Int) : Nat × Nat :=
  if 0 ≤ e then (num, den <<< e.toNat) else (num <<< (-e).toNat, den)

/-- The exponent `l` with `2 ^ l ≤ num / den < 2 ^ (l + 1)`, for a positive quotient. -/
def floorLog2 (num den : Nat) : Int :=
  let guess : Int := (Nat.log2 num : Int) - Nat.log2 den
  let s := scaleBy num den guess
  if s.1 < s.2 then guess - 1 else guess

/-- A binary format: bits of the significand and the exponent of its smallest unit. -/
structure Format where
  precision : Nat
  leastExponent : Int
  deriving DecidableEq, Repr

def Format.single : Format := ⟨24, -149⟩

def Format.double : Format := ⟨53, -1074⟩

def Format.round (f : Format) (num den : Nat) : Nat × Int :=
  if num = 0 then (0, f.leastExponent)
  else
    let e := max f.leastExponent (floorLog2 num den - (f.precision - 1 : Nat))
    let s := scaleBy num den e
    let m := roundDiv s.1 s.2
    if m = 1 <<< f.precision then (1 <<< (f.precision - 1), e + 1) else (m, e)

def ofScaled (m : Nat) (e : Int) : Nat × Nat :=
  if 0 ≤ e then (m <<< e.toNat, 1) else (m, 1 <<< (-e).toNat)

def ofDecimalScaled (m : Nat) (e : Int) : Nat × Nat :=
  if 0 ≤ e then (m * Nat.pow 10 e.toNat, 1) else (m, Nat.pow 10 (-e).toNat)

end Arbiter.Number
