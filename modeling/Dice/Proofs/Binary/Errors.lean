import Dice.Proofs.Binary.Operations

namespace Dice.Binary

/-!
# Errors of several operations

Every operation on floats is off by a 53rd binary digit at most, relative to its exact result, unless
the result is next to zero.  What several operations may be off is written as a power of one ratio,
so that the errors of factors and divisors just add up in the exponent.

* `ratio` — what is left of one by the error of one operation.
* `Close` — numbers that are as near to each other as that many operations leave them.
* `RoundsTo.close` — one operation.
* `Close.trans`, `Close.mul`, `Close.div` — several of them.
* `RoundsTo.mul_ratio_le` — upper bounds.
-/

/-- What is left of one by the relative error of one operation. -/
def ratio : ℚ := 1 - 1 / 2 ^ 53

theorem ratio_pos : 0 < ratio := by norm_num [ratio]

theorem ratio_le_one : ratio ≤ 1 := by norm_num [ratio]

/-- What some operations leave of one is no more than one. -/
theorem ratio_pow_le_one (k : ℕ) : ratio ^ k ≤ 1 := pow_le_one₀ ratio_pos.le ratio_le_one

/-- The more operations there are, the less they leave. -/
theorem ratio_pow_anti {j k : ℕ} (h : j ≤ k) : ratio ^ k ≤ ratio ^ j :=
  pow_le_pow_of_le_one ratio_pos.le ratio_le_one h

/-- A few operations leave almost everything. -/
theorem one_sub_le_ratio_pow (k : ℕ) : 1 - k / 2 ^ 53 ≤ ratio ^ k := by
  have hbernoulli := one_add_mul_le_pow (by norm_num : (-2 : ℚ) ≤ -(1 / 2 ^ 53)) k
  calc
    1 - (k : ℚ) / 2 ^ 53 = 1 + k * -(1 / 2 ^ 53) := by ring
    _ ≤ (1 + -(1 / 2 ^ 53)) ^ k := hbernoulli
    _ = ratio ^ k := by rw [ratio, sub_eq_add_neg]

/-- The two numbers are as near to each other as that many operations leave them. -/
structure Close (k : ℕ) (q v : ℚ) : Prop where
  low : q * ratio ^ k ≤ v
  high : v * ratio ^ k ≤ q

/-- Half a unit of the last digit, at the least number that has all its digits. -/
theorem least_div : (1 : ℚ) / 2 ^ 1022 / 2 ^ 53 = 1 / 2 ^ 1075 := by
  rw [div_div, ← pow_add]

/-- Twice the least float is four times the half of it. -/
theorem four_mul_least : 4 * ((1 : ℚ) / 2 ^ 1075) = 1 / 2 ^ 1073 := by
  rw [pow_add 2 1073 2]
  field_simp
  norm_num

/-- Above the least float with all its digits, only the relative error counts. -/
theorem RoundsTo.near_of_le {q v b : ℚ} (h : RoundsTo q v) (hq : q ≤ b) (hb : 1 / 2 ^ 1022 ≤ b) :
    |v - q| ≤ b / 2 ^ 53 := by
  refine h.near.trans (max_le ?_ ?_)
  · exact div_le_div_of_nonneg_right hq (by norm_num)
  · rw [← least_div]
    exact div_le_div_of_nonneg_right hb (by norm_num)

/-- Below it, only the absolute error counts. -/
theorem RoundsTo.near_of_lt {q v : ℚ} (h : RoundsTo q v) (hq : q < 1 / 2 ^ 1022) :
    |v - q| ≤ 1 / 2 ^ 1075 := by
  rw [← least_div]
  exact h.near_of_le hq.le le_rfl

/-- Rounding leaves a number within one relative error, unless it is next to zero. -/
theorem RoundsTo.close {q v : ℚ} (h : RoundsTo q v) (hq : 1 / 2 ^ 1022 ≤ q) : Close 1 q v := by
  obtain ⟨hlow, hhigh⟩ := abs_le.mp (h.near_of_le le_rfl hq)
  have hpos : 0 ≤ q := le_trans (by positivity) hq
  constructor <;> rw [pow_one, ratio] <;> linarith

/-- The two errors together are a lower bound anywhere. -/
theorem RoundsTo.mul_ratio_le_add {q v : ℚ} (h : RoundsTo q v) (hq : 0 ≤ q) :
    q * ratio ≤ v + 1 / 2 ^ 1075 := by
  have hnear := h.near.trans (max_le_add_of_nonneg (by positivity) (by positivity))
  have hlow := (abs_le.mp hnear).1
  rw [ratio]
  generalize (1 : ℚ) / 2 ^ 1075 = least at hlow ⊢
  linarith

/-- And an upper bound. -/
theorem RoundsTo.le_div_ratio_add {q v : ℚ} (h : RoundsTo q v) (hq : 0 ≤ q) :
    v ≤ q / ratio + 1 / 2 ^ 1075 := by
  have hnear := h.near.trans (max_le_add_of_nonneg (by positivity) (by positivity))
  have hhigh := (abs_le.mp hnear).2
  have hquotient : q + q / 2 ^ 53 ≤ q / ratio := by
    rw [le_div_iff₀ ratio_pos, ratio]
    nlinarith
  generalize (1 : ℚ) / 2 ^ 1075 = least at hhigh ⊢
  linarith

/-- No error is greater than the number itself, or than one. -/
theorem RoundsTo.le_two_mul_add_one {q v : ℚ} (h : RoundsTo q v) (hq : 0 ≤ q) : v ≤ 2 * q + 1 := by
  have hrelative : q / 2 ^ 53 ≤ q + 1 := by linarith
  have hleast : (1 : ℚ) / 2 ^ 1075 ≤ q + 1 :=
    ((div_le_one (by positivity)).mpr (one_le_pow₀ one_le_two)).trans (le_add_of_nonneg_left hq)
  have herror := (abs_le.mp (h.near.trans (max_le hrelative hleast))).2
  linarith only [herror]

/-- An upper bound of the exact result is one of the float, up to the error of one operation. -/
theorem RoundsTo.mul_ratio_le {q v b : ℚ} (h : RoundsTo q v) (hq : q ≤ b) (hb : 1 / 2 ^ 1022 ≤ b) :
    v * ratio ≤ b := by
  have hhigh := (abs_le.mp (h.near_of_le hq hb)).2
  have hpos : 0 ≤ b := le_trans (by positivity) hb
  rw [ratio]
  linarith

namespace Close

variable {j k : ℕ} {a b q v w : ℚ}

/-- A number is as near to itself as no operations leave it. -/
theorem refl (q : ℚ) : Close 0 q q := by
  constructor <;> rw [pow_zero, mul_one]

/-- Closeness goes both ways. -/
theorem symm (h : Close k q v) : Close k v q := ⟨h.high, h.low⟩

/-- Errors of operations made one after the other add up. -/
theorem trans (h : Close j q w) (h' : Close k w v) : Close (j + k) q v where
  low := calc
    q * ratio ^ (j + k) = q * ratio ^ j * ratio ^ k := by rw [pow_add, mul_assoc]
    _ ≤ w * ratio ^ k := mul_le_mul_of_nonneg_right h.low (pow_pos ratio_pos k).le
    _ ≤ v := h'.low
  high := calc
    v * ratio ^ (j + k) = v * ratio ^ k * ratio ^ j := by rw [pow_add]; ring
    _ ≤ w * ratio ^ j := mul_le_mul_of_nonneg_right h'.high (pow_pos ratio_pos j).le
    _ ≤ q := h.high

/-- The errors of two factors add up in their product. -/
theorem mul (h : Close j a q) (h' : Close k b v) (ha : 0 ≤ a) (hb : 0 ≤ b) (hq : 0 ≤ q)
    (hv : 0 ≤ v) : Close (j + k) (a * b) (q * v) where
  low := calc
    a * b * ratio ^ (j + k) = a * ratio ^ j * (b * ratio ^ k) := by rw [pow_add]; ring
    _ ≤ q * v := mul_le_mul h.low h'.low (mul_nonneg hb (pow_pos ratio_pos k).le) hq
  high := calc
    q * v * ratio ^ (j + k) = q * ratio ^ j * (v * ratio ^ k) := by rw [pow_add]; ring
    _ ≤ a * b := mul_le_mul h.high h'.high (mul_nonneg hv (pow_pos ratio_pos k).le) ha

/-- Reciprocals are as near to each other as their numbers. -/
theorem inv (h : Close k b v) (hb : 0 < b) (hv : 0 < v) : Close k b⁻¹ v⁻¹ where
  low := by
    rw [inv_mul_eq_div, div_le_iff₀ hb, inv_mul_eq_div, le_div_iff₀ hv, mul_comm]
    exact h.high
  high := by
    rw [inv_mul_eq_div, div_le_iff₀ hv, inv_mul_eq_div, le_div_iff₀ hb, mul_comm]
    exact h.low

/-- The errors of a number and of its divisor add up in the quotient. -/
theorem div (h : Close j a q) (h' : Close k b v) (ha : 0 ≤ a) (hb : 0 < b) (hq : 0 ≤ q)
    (hv : 0 < v) : Close (j + k) (a / b) (q / v) := by
  rw [div_eq_mul_inv, div_eq_mul_inv]
  exact h.mul (h'.inv hb hv) ha (inv_pos.mpr hb).le hq (inv_pos.mpr hv).le

/-- What is within the error of some operations is within that of more. -/
theorem mono (h : Close j q v) (hjk : j ≤ k) (hq : 0 ≤ q) (hv : 0 ≤ v) : Close k q v := by
  exact ⟨(mul_le_mul_of_nonneg_left (ratio_pow_anti hjk) hq).trans h.low,
    (mul_le_mul_of_nonneg_left (ratio_pow_anti hjk) hv).trans h.high⟩

/-- One operation does not halve anything. -/
theorem le_two_mul (h : Close 1 q v) (hq : 0 ≤ q) : q ≤ 2 * v := by
  have hlow := h.low
  rw [pow_one, ratio] at hlow
  linarith

/-- Four operations are off by five units of the 53rd digit at most. -/
theorem abs_sub_le (h : Close 4 q v) (hq : 0 ≤ q) : |v - q| ≤ q * (5 / 2 ^ 53) := by
  have hratio : (1 - 4 / 2 ^ 53 : ℚ) ≤ ratio ^ 4 := by exact_mod_cast one_sub_le_ratio_pow 4
  have hlow := h.low
  have hhigh := h.high
  have hv : 0 ≤ v := (mul_nonneg hq (pow_pos ratio_pos 4).le).trans hlow
  have hq' := mul_le_mul_of_nonneg_left hratio hq
  have hv' := mul_le_mul_of_nonneg_left hratio hv
  rw [abs_le]
  constructor <;> linarith

end Close

/-! ### Powers of ten -/

section PowersOfTen

variable {n : ℕ} {p : ℚ} (h : RoundsTo (10 ^ n) p)

include h

/-- The float of a power of ten is within one relative error of it. -/
theorem RoundsTo.close_ten_pow : Close 1 (10 ^ n) p := by
  refine h.close (le_trans ?_ (one_le_pow₀ (by norm_num)))
  exact (div_le_one (by positivity)).mpr (one_le_pow₀ one_le_two)

/-- The float of a power of ten is at least half as great. -/
theorem RoundsTo.ten_pow_le : (10 : ℚ) ^ n ≤ 2 * p := h.close_ten_pow.le_two_mul (by positivity)

theorem RoundsTo.ten_pow_pos : 0 < p := by
  have hpos : (0 : ℚ) < 10 ^ n := by positivity
  linarith [h.ten_pow_le]

/-- The float of a power of ten is at most twice as great. -/
theorem RoundsTo.le_ten_pow : p ≤ 2 * 10 ^ n := h.close_ten_pow.symm.le_two_mul h.ten_pow_pos.le

/-- A power of ten that is ten at least is rounded to no less than one. -/
theorem RoundsTo.one_le_ten_pow (hn : 0 < n) : 1 ≤ p := by
  have hten : (10 : ℚ) ≤ 10 ^ n := le_self_pow₀ (by norm_num) hn.ne'
  linarith [h.ten_pow_le]

end PowersOfTen

end Dice.Binary
