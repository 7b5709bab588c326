import Mathlib.Algebra.Order.Field.Power
import Mathlib.Algebra.Order.Field.Rat
import Mathlib.Order.WithBot
import Arbiter.Number.Binary32

/-! The order of binary numbers is that of what they stand for, the infinities at both ends. The two
zeros stand for the same number, and what is not a number compares with nothing. -/

namespace Arbiter.Number.Binary32

/-! ## What words stand for -/

/-- The rational numbers and two infinities. -/
abbrev Extended := WithBot (WithTop ℚ)

/-- What a word stands for, if it is a number. -/
def value (x : Binary32) : Extended :=
  if x.isInfinite then if x.isNegative then ⊥ else ⊤
  else (((if x.isNegative then -1 else 1) * (x.significand * 2 ^ x.exponent) : ℚ) : WithTop ℚ)

theorem rational_lt_top (q : ℚ) : ((q : WithTop ℚ) : Extended) < ⊤ :=
  WithBot.coe_lt_coe.mpr (WithTop.coe_lt_top q)

/-- A finite magnitude in units of the least one, `2 ^ -149`. -/
def units (magnitude : Nat) : Nat :=
  if magnitude < 2 ^ 23 then magnitude
  else (magnitude % 2 ^ 23 + 2 ^ 23) * 2 ^ (magnitude / 2 ^ 23 - 1)

theorem units_lt_succ (m : Nat) : units m < units (m + 1) := by
  unfold units
  by_cases hsucc : m + 1 < 2 ^ 23
  · rw [if_pos (by omega), if_pos hsucc]
    exact Nat.lt_succ_self m
  · rw [if_neg hsucc]
    by_cases hm : m < 2 ^ 23
    · have hmod : (m + 1) % 2 ^ 23 = 0 := by omega
      have hdiv : (m + 1) / 2 ^ 23 - 1 = 0 := by omega
      rw [if_pos hm, hmod, hdiv]
      omega
    · rw [if_neg hm]
      by_cases hcarry : m % 2 ^ 23 + 1 = 2 ^ 23
      · -- the exponent grows
        have hmod : (m + 1) % 2 ^ 23 = 0 := by omega
        have hdiv : (m + 1) / 2 ^ 23 - 1 = m / 2 ^ 23 - 1 + 1 := by omega
        rw [hmod, hdiv, Nat.zero_add, pow_succ' 2 (m / 2 ^ 23 - 1), ← Nat.mul_assoc]
        exact Nat.mul_lt_mul_of_pos_right (by omega) (Nat.two_pow_pos _)
      · have hmod : (m + 1) % 2 ^ 23 = m % 2 ^ 23 + 1 := by omega
        have hdiv : (m + 1) / 2 ^ 23 = m / 2 ^ 23 := by omega
        rw [hmod, hdiv]
        exact Nat.mul_lt_mul_of_pos_right (by omega) (Nat.two_pow_pos _)

theorem units_strictMono : StrictMono units := strictMono_nat_of_lt_succ units_lt_succ

theorem units_eq_zero_iff {m : Nat} : units m = 0 ↔ m = 0 :=
  units_strictMono.injective.eq_iff' rfl

theorem significand_mul (x : Binary32) :
    (x.significand * 2 ^ x.exponent : ℚ) = units x.magnitude * 2 ^ (-149 : ℤ) := by
  have hunit : 1 <<< 23 = 2 ^ 23 := rfl
  unfold significand exponent units
  rw [hunit]
  by_cases h : x.magnitude < 2 ^ 23
  · simp only [h, if_true]
  · simp only [h, if_false]
    have hexponent : ((x.magnitude / 2 ^ 23 : Nat) - 150 : ℤ) =
        (x.magnitude / 2 ^ 23 - 1 : Nat) + (-149) := by omega
    rw [hexponent, zpow_add₀ (by norm_num), zpow_natCast, ← mul_assoc]
    push_cast
    rfl

/-! ## The order -/

/-- A finite number in units of the least positive one. -/
def signedUnits (x : Binary32) : ℤ :=
  if x.isNegative then -(units x.magnitude : ℤ) else units x.magnitude

theorem value_of_finite {x : Binary32} (h : x.isInfinite = false) :
    x.value = ((x.signedUnits * 2 ^ (-149 : ℤ) : ℚ) : WithTop ℚ) := by
  rw [value, significand_mul, signedUnits, h]
  cases x.isNegative <;> simp

theorem signedUnits_lt_iff {x y : Binary32} :
    x.signedUnits < y.signedUnits ↔ x.orderKey < y.orderKey := by
  have hlt : ∀ {a b : Nat}, units a < units b ↔ a < b := units_strictMono.lt_iff_lt
  have hx := units_eq_zero_iff (m := x.magnitude)
  have hy := units_eq_zero_iff (m := y.magnitude)
  have hxy := hlt (a := x.magnitude) (b := y.magnitude)
  have hyx := hlt (a := y.magnitude) (b := x.magnitude)
  unfold signedUnits orderKey
  cases x.isNegative <;> cases y.isNegative <;>
    simp only [if_true, Bool.false_eq_true, if_false] <;> omega

theorem isInfinite_iff {x : Binary32} : x.isInfinite = true ↔ x.magnitude = infiniteMagnitude :=
  decide_eq_true_iff

theorem magnitude_lt_of_finite {x : Binary32} (hn : x.isNaN = false) (hi : x.isInfinite = false) :
    x.magnitude < infiniteMagnitude := by
  have hle : ¬infiniteMagnitude < x.magnitude := of_decide_eq_false hn
  have hne : x.magnitude ≠ infiniteMagnitude := of_decide_eq_false hi
  omega

theorem value_of_infinite {x : Binary32} (h : x.isInfinite = true) :
    x.value = if x.isNegative then ⊥ else ⊤ := by
  rw [value, if_pos h]

theorem orderKey_of_infinite {x : Binary32} (h : x.isInfinite = true) :
    x.orderKey = if x.isNegative then -(infiniteMagnitude : ℤ) else infiniteMagnitude := by
  rw [orderKey, isInfinite_iff.mp h]

/-- In the order of all numbers the finite ones are between the infinities. -/
theorem orderKey_of_finite {x : Binary32} (hn : x.isNaN = false) (hi : x.isInfinite = false) :
    -(infiniteMagnitude : ℤ) < x.orderKey ∧ x.orderKey < infiniteMagnitude := by
  have hlt := magnitude_lt_of_finite hn hi
  unfold orderKey
  split <;> omega

/-- The comparison of two words is that of the numbers they stand for. -/
theorem less_iff {x y : Binary32} :
    x.less y = true ↔ x.isNaN = false ∧ y.isNaN = false ∧ x.value < y.value := by
  simp only [less, Bool.and_eq_true, Bool.not_eq_true', decide_eq_true_eq, and_assoc]
  refine and_congr_right fun hx => and_congr_right fun hy => ?_
  cases hxi : x.isInfinite <;> cases hyi : y.isInfinite
  case false.false =>
    rw [value_of_finite hxi, value_of_finite hyi, WithBot.coe_lt_coe, WithTop.coe_lt_coe,
      mul_lt_mul_iff_left₀ (by positivity), Int.cast_lt, signedUnits_lt_iff]
  case false.true =>
    obtain ⟨hbelow, habove⟩ := orderKey_of_finite hx hxi
    rw [value_of_finite hxi, value_of_infinite hyi, orderKey_of_infinite hyi]
    cases y.isNegative with
    | false => exact iff_of_true habove (rational_lt_top _)
    | true => exact iff_of_false (not_lt_of_gt hbelow) not_lt_bot
  case true.false =>
    obtain ⟨hbelow, habove⟩ := orderKey_of_finite hy hyi
    rw [value_of_infinite hxi, value_of_finite hyi, orderKey_of_infinite hxi]
    cases x.isNegative with
    | false => exact iff_of_false (not_lt_of_gt habove) (not_lt_of_gt (rational_lt_top _))
    | true => exact iff_of_true hbelow (WithBot.bot_lt_coe _)
  case true.true =>
    rw [value_of_infinite hxi, value_of_infinite hyi, orderKey_of_infinite hxi,
      orderKey_of_infinite hyi]
    cases x.isNegative <;> cases y.isNegative <;> simp [infiniteMagnitude]

example : (zero true).less (zero false) = false ∧ (infinity true).less (zero true) = true ∧
    nan.less (infinity false) = false := by
  decide

end Arbiter.Number.Binary32
