import Arbiter.Number.Binary32

/-!
Reading decimal numbers. The digits are taken one by one as far as a word of 64 bits holds them,
and the result is then scaled by powers of ten in double precision; every step rounds.
-/

namespace Arbiter.Number

/-- A number `significand · 2 ^ exponent` in double precision, without its sign. -/
structure Double where
  significand : Nat
  exponent : Int
  deriving DecidableEq, Repr

namespace Double

def ofQuotient (num den : Nat) : Double :=
  let r := Format.double.round num den
  ⟨r.1, r.2⟩

def ofNat (n : Nat) : Double := ofQuotient n 1

def mul (x y : Double) : Double :=
  let s := ofScaled (x.significand * y.significand) (x.exponent + y.exponent)
  ofQuotient s.1 s.2

def div (x y : Double) : Double :=
  let s := ofScaled x.significand (x.exponent - y.exponent)
  ofQuotient s.1 (s.2 * y.significand)

def tenLimit : Nat := 308

/-- Multiplies by a power of ten. All powers beyond the largest one give too much for 32 bits. -/
def raise (x : Double) (n : Nat) : Double :=
  if x.significand = 0 then x else x.mul (ofNat (Nat.pow 10 (min n (tenLimit + 1))))

/-- Divides by a power of ten, in steps if it is beyond the largest one. -/
def lower (x : Double) (n : Nat) : Double :=
  if n ≤ tenLimit then x.div (ofNat (Nat.pow 10 n))
  else if x.significand = 0 then x
  else lower (x.div (ofNat (Nat.pow 10 tenLimit))) (n - tenLimit)
termination_by n
decreasing_by simp only [tenLimit] at *; omega

end Double

def value (n : Nat) (ds : List Nat) : Nat := ds.foldl (fun n d => 10 * n + d) n

/-- Appends digits to a number while a word holds it; gives the digits that are left. -/
def absorb (n : Nat) : List Nat → Nat × List Nat
  | [] => (n, [])
  | d :: ds => if 10 * n + d < 1 <<< 64 then absorb (10 * n + d) ds else (n, d :: ds)

/-- No digit is lost. -/
theorem value_absorb (n : Nat) (ds : List Nat) :
    value (absorb n ds).1 (absorb n ds).2 = value n ds := by
  fun_induction absorb n ds with
  | case1 => rfl
  | case2 n d ds _ ih => exact ih
  | case3 => rfl

theorem absorb_lt {n : Nat} (h : n < 1 <<< 64) (ds : List Nat) : (absorb n ds).1 < 1 <<< 64 := by
  fun_induction absorb n ds with
  | case1 => exact h
  | case2 n d ds fits ih => exact ih fits
  | case3 => exact h

structure Numeral where
  negative : Bool
  whole : List Nat
  fraction : List Nat
  exponent : Int
  deriving DecidableEq, Repr

namespace Numeral

def digits (cs : List Char) : List Nat × List Char :=
  ((cs.takeWhile Char.isDigit).map fun c => c.toNat - '0'.toNat, cs.dropWhile Char.isDigit)

def signed : List Char → Bool × List Char
  | '-' :: cs => (true, cs)
  | '+' :: cs => (false, cs)
  | cs => (false, cs)

/-- The exponent that ends a numeral; zero if there is none. -/
def exponent? : List Char → Option Int
  | [] => some 0
  | e :: cs =>
    let s := signed cs
    match digits s.2 with
    | (d :: ds, []) =>
      let n : Int := value 0 (d :: ds)
      if e.toLower = 'e' then some (if s.1 then -n else n) else none
    | _ => none

def parse? (text : String) : Option Numeral :=
  let s := signed text.toList
  let w := digits s.2
  let f := match w.2 with
    | '.' :: cs => digits cs
    | cs => ([], cs)
  if w.1.isEmpty then none else (exponent? f.2).map fun e => ⟨s.1, w.1, f.1, e⟩

/-- The number in double precision, without its sign. Digits of the whole part that are left
still count as places; those of the fraction do not. -/
def toDouble (n : Numeral) : Double :=
  let w := absorb 0 n.whole
  let f := absorb w.1 n.fraction
  let e := n.exponent + w.2.length + f.2.length - n.fraction.length
  if 0 ≤ e then (Double.ofNat f.1).raise e.toNat else (Double.ofNat f.1).lower (-e).toNat

end Numeral

namespace Binary32

/-- A decimal number is read in double precision and then rounded to 32 bits. -/
def ofNumeral (n : Numeral) : Binary32 :=
  let d := n.toDouble
  let s := ofScaled d.significand d.exponent
  ofQuotient n.negative s.1 s.2

def parse? : String → Option Binary32
  | "nan" => some nan
  | "inf" => some (infinity false)
  | "-inf" => some (infinity true)
  | text => (Numeral.parse? text).map ofNumeral

end Binary32

end Arbiter.Number
