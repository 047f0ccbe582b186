import Dice.Decimal.Shortest
import Dice.Proofs.Binary.Rounding

namespace Dice.Decimal

open Dice.Binary

/-!
# Shortest decimals round to their floats

The search for the shortest decimal of a float starts above the float and ends, long before it gives
up, where the powers of ten are finer than the digits of the float.  What it finds lies in the
interval of the numbers that round to the float, and has not many more digits than the float.

* `ten_zpow_le_two_zpow`, `two_zpow_le_ten_zpow` — powers of ten and of two.
* `shortestFrom_spec` — what the search finds.
* `rounds_shortest` — the shortest decimal rounds to the float.
* `digits_shortest_lt`, `le_exponent_shortest`, `exponent_shortest_le` — how long it is.
-/

/-! ### Powers of ten and of two -/

/-- Ten is less than two to the power 10/3. -/
theorem ten_pow_le_two_zpow {n : ℕ} {t : ℤ} (h : 10 * n ≤ 3 * t) : (10 : ℚ) ^ n ≤ 2 ^ t := by
  -- The third powers are compared, as a thousand is less than two to the 10.
  have hcube : ((10 : ℚ) ^ n) ^ 3 ≤ (2 ^ t) ^ 3 := calc
    ((10 : ℚ) ^ n) ^ 3 = (10 ^ 3) ^ n := by rw [← pow_mul, ← pow_mul, mul_comm]
    _ ≤ (2 ^ 10) ^ n := pow_le_pow_left₀ (by norm_num) (by norm_num) n
    _ = 2 ^ (10 * n : ℤ) := by rw [← pow_mul, ← zpow_natCast]; push_cast; rfl
    _ ≤ 2 ^ (3 * t) := zpow_le_zpow_right₀ one_le_two h
    _ = (2 ^ t) ^ 3 := by rw [mul_comm, zpow_mul]; rfl
  exact le_of_pow_le_pow_left₀ three_ne_zero (by positivity) hcube

/-- Ten is more than two to the power 33/10. -/
theorem two_zpow_le_ten_pow {n : ℕ} {t : ℤ} (h : 10 * t ≤ 33 * n) : (2 : ℚ) ^ t ≤ 10 ^ n := by
  have htenth : ((2 : ℚ) ^ t) ^ 10 ≤ (10 ^ n) ^ 10 := calc
    ((2 : ℚ) ^ t) ^ 10 = 2 ^ (10 * t) := by rw [mul_comm, zpow_mul]; rfl
    _ ≤ 2 ^ (33 * n : ℤ) := zpow_le_zpow_right₀ one_le_two h
    _ = (2 ^ 33) ^ n := by rw [← pow_mul, ← zpow_natCast]; push_cast; rfl
    _ ≤ (10 ^ 10) ^ n := pow_le_pow_left₀ (by norm_num) (by norm_num) n
    _ = (10 ^ n) ^ 10 := by rw [← pow_mul, ← pow_mul, mul_comm]
  exact le_of_pow_le_pow_left₀ (by norm_num) (by positivity) htenth

/-- A power of ten is at most a power of two if its exponent times 10/3, or 33/10 below zero, is no
    more. -/
theorem ten_zpow_le_two_zpow {k t : ℤ} (h : 10 * k ≤ 3 * t) (h' : 33 * k ≤ 10 * t) :
    (10 : ℚ) ^ k ≤ 2 ^ t := by
  rcases Int.eq_nat_or_neg k with ⟨n, rfl | rfl⟩
  · rw [zpow_natCast]
    exact ten_pow_le_two_zpow h
  · rw [zpow_neg, zpow_natCast, ← neg_neg t, zpow_neg]
    exact inv_anti₀ (by positivity) (two_zpow_le_ten_pow (by omega))

/-- A power of two is at most a power of ten if its exponent times 10/33, or 3/10 below zero, is no
    more. -/
theorem two_zpow_le_ten_zpow {k t : ℤ} (h : 10 * t ≤ 33 * k) (h' : 3 * t ≤ 10 * k) :
    (2 : ℚ) ^ t ≤ 10 ^ k := by
  rcases Int.eq_nat_or_neg k with ⟨n, rfl | rfl⟩
  · rw [zpow_natCast]
    exact two_zpow_le_ten_pow h
  · rw [zpow_neg, zpow_natCast, ← neg_neg t, zpow_neg]
    exact inv_anti₀ (by positivity) (ten_pow_le_two_zpow (by omega))

/-! ### The search -/

/-- The number that a decimal stands for. -/
def Scientific.number (s : Scientific) : ℚ := s.digits * 10 ^ s.exponent

/-- The decimal has at most 15 digits, and at most 22 places after the point. -/
structure Scientific.Short (s : Scientific) : Prop where
  digits : s.digits < 10 ^ 15
  low : -22 ≤ s.exponent
  high : s.exponent ≤ 0

instance (s : Scientific) : Decidable s.Short :=
  decidable_of_iff (s.digits < 10 ^ 15 ∧ -22 ≤ s.exponent ∧ s.exponent ≤ 0)
    ⟨fun h => ⟨h.1, h.2.1, h.2.2⟩, fun h => ⟨h.digits, h.low, h.high⟩⟩

/-- A power times its denominator is its numerator. -/
theorem zpow_mul_pow_toNat_neg {b : ℚ} (hb : b ≠ 0) (k : ℤ) :
    b ^ k * b ^ (-k).toNat = b ^ k.toNat := by
  rw [← zpow_natCast, ← zpow_natCast, ← zpow_add₀ hb]
  congr 1
  omega

/-- What whole numbers of digits of a float and of units are multiplied with to be compared. -/
def commonScale (e k : ℤ) : ℚ := 2 ^ (-e).toNat * 10 ^ (-k).toNat

theorem commonScale_pos (e k : ℤ) : 0 < commonScale e k := by
  unfold commonScale
  positivity

/-- The whole number that stands for some digits of a float, on the common scale. -/
theorem cast_mul_scale (e k : ℤ) (a : ℕ) :
    ((a * (Nat.pow 2 e.toNat * Nat.pow 10 (-k).toNat) : ℕ) : ℚ) =
      a * 2 ^ e * commonScale e k := by
  have htwo := zpow_mul_pow_toNat_neg (two_ne_zero' ℚ) e
  push_cast [Nat.pow_eq]
  rw [← htwo, commonScale]
  ring

/-- The whole number that stands for some units, on the common scale. -/
theorem cast_mul_unit (e k : ℤ) (n : ℕ) :
    ((n * (Nat.pow 10 k.toNat * Nat.pow 2 (-e).toNat) : ℕ) : ℚ) =
      n * 10 ^ k * commonScale e k := by
  have hten := zpow_mul_pow_toNat_neg (by norm_num : (10 : ℚ) ≠ 0) k
  push_cast [Nat.pow_eq]
  rw [← hten, commonScale]
  ring

/-- The number lies between two bounds, at which it may stand only if the interval is closed. -/
structure Between (closed : Bool) (a b q : ℚ) : Prop where
  low : a ≤ q
  high : q ≤ b
  ends : closed = true ∨ a < q ∧ q < b

/-- What is taken for the nearest multiple lies in the interval. -/
theorem inside_of_nearestMultiple {closed : Bool} {low value high unit n : ℕ}
    (h : nearestMultiple closed low value high unit = some n) :
    (low ≤ n * unit ∧ n * unit ≤ high) ∧ (closed = true ∨ low < n * unit ∧ n * unit < high) := by
  unfold nearestMultiple at h
  cases closed <;> grind

/-- There is a multiple in the interval if the unit is not too great. -/
theorem exists_nearestMultiple (closed : Bool) {low value high unit : ℕ} (hunit : 0 < unit)
    (hlow : 2 * low + unit < 2 * value) (hhigh : 2 * value + unit < 2 * high) :
    ∃ n, nearestMultiple closed low value high unit = some n := by
  obtain ⟨habove, hbelow⟩ := @roundEven_near value unit hunit
  have hinside : low < roundEven value unit * unit ∧ roundEven value unit * unit < high := by omega
  refine ⟨roundEven value unit, ?_⟩
  unfold nearestMultiple
  cases closed <;> grind

/-- The search ends where the powers of ten are finer than the digits between the bounds.  What it
    finds lies in the interval; the power of ten is not much finer than it has to be. -/
theorem shortestFrom_spec {closed : Bool} {low value high : ℕ} {e : ℤ} (hlow : low < value)
    (hhigh : value < high) {steps : ℕ} {k : ℤ} (hend : (10 : ℚ) ^ (k + 1 - steps) ≤ 2 ^ e)
    (habove : (2 : ℚ) ^ e < 10 ^ (k + 1)) {s : Scientific}
    (h : shortestFrom closed low value high e steps k = s) :
    Between closed (low * 2 ^ e) (high * 2 ^ e) s.number ∧ (2 : ℚ) ^ e < 10 ^ (s.exponent + 1) := by
  -- Every step divides the power of ten by ten; `hend` keeps the search from running out of steps.
  induction steps generalizing k with
  | zero =>
    rw [Nat.cast_zero, sub_zero] at hend
    exact absurd habove hend.not_gt
  | succ steps ih =>
    rw [shortestFrom] at h
    have hscale := commonScale_pos e k
    split at h
    · next n hn =>
      subst h
      have hinside := inside_of_nearestMultiple hn
      simp only [← Nat.cast_le (α := ℚ), ← Nat.cast_lt (α := ℚ), cast_mul_scale, cast_mul_unit,
        mul_le_mul_iff_of_pos_right hscale, mul_lt_mul_iff_of_pos_right hscale] at hinside
      exact ⟨⟨hinside.1.1, hinside.1.2, hinside.2⟩, habove⟩
    · next hnone =>
      refine ih ?_ ?_ h
      · rwa [show k - 1 + 1 - (steps : ℤ) = k + 1 - (steps + 1 : ℕ) by push_cast; ring]
      -- A power of ten as fine as the digits would have had a multiple in the interval.
      · rw [sub_add_cancel]
        by_contra hcoarse
        have hfine := mul_le_mul_of_nonneg_right (not_lt.mp hcoarse) hscale.le
        have hunit := cast_mul_unit e k 1
        have hdigit := cast_mul_scale e k 1
        rw [Nat.cast_one, one_mul, one_mul] at hunit hdigit
        rw [← hunit, ← hdigit, Nat.cast_le] at hfine
        have hpos : 0 < Nat.pow 10 k.toNat * Nat.pow 2 (-e).toNat :=
          Nat.mul_pos (Nat.pow_pos (by decide)) (Nat.pow_pos (by decide))
        generalize Nat.pow 2 e.toNat * Nat.pow 10 (-k).toNat = scale at hfine hnone
        generalize Nat.pow 10 k.toNat * Nat.pow 2 (-e).toNat = unit at hfine hnone hpos
        have hbelow : 2 * (low * scale) + unit < 2 * (value * scale) := by nlinarith
        have habove : 2 * (value * scale) + unit < 2 * (high * scale) := by nlinarith
        obtain ⟨n, hn⟩ := exists_nearestMultiple closed hpos hbelow habove
        exact nomatch hnone.symm.trans hn

/-! ### Floats -/

theorem two_zpow_eq_four_mul (e : ℤ) : (2 : ℚ) ^ e = 4 * 2 ^ (e - 2) := by
  rw [zpow_sub₀ two_ne_zero]
  norm_num
  ring

/-- The shortest decimal of a float rounds to it, and its power of ten is not much finer than the
    digits of the float. -/
theorem shortest_spec {m : ℕ} {e : ℤ} (hm : Canonical m e) (hpos : 0 < m) (he : e ≤ 971) :
    Rounds m e (shortest m e).number ∧ (2 : ℚ) ^ (e - 2) < 10 ^ ((shortest m e).exponent + 1) := by
  have hleast := hm.exponent
  have hlog : m.log2 ≤ 52 := Nat.lt_succ_iff.mp ((Nat.log2_lt hpos.ne').mpr hm.digits)
  have hend : (10 : ℚ) ^ (exponentAbove m e + 1 - (25 : ℕ)) ≤ 2 ^ (e - 2) := by
    unfold exponentAbove
    exact ten_zpow_le_two_zpow (by omega) (by omega)
  have habove : (2 : ℚ) ^ (e - 2) < 10 ^ (exponentAbove m e + 1) := by
    have hnormal : 52 ≤ m.log2 ∨ e = -1074 := hm.normal.imp_left (Nat.le_log2 hpos.ne').mpr
    have hstep : (2 : ℚ) ^ (e - 2) < 2 ^ (e - 1) := zpow_lt_zpow_right₀ one_lt_two (by omega)
    refine hstep.trans_le (two_zpow_le_ten_zpow ?_ ?_) <;> unfold exponentAbove <;> omega
  -- The bounds are given in quarters of the last digit.
  have hlower : ((if (m == Nat.pow 2 52 && -1074 < e) = true then 4 * m - 1
      else 4 * m - 2 : ℕ) : ℚ) * 2 ^ (e - 2) = lowerEnd m e * 2 ^ e := by
    have hnearer : (m == Nat.pow 2 52 && -1074 < e) = true ↔ m = 2 ^ 52 ∧ -1074 < e := by simp
    simp only [hnearer, lowerEnd, two_zpow_eq_four_mul e]
    split <;> rw [Nat.cast_sub (by omega)] <;> push_cast <;> ring
  have hupper : ((4 * m + 2 : ℕ) : ℚ) * 2 ^ (e - 2) = (m + 1 / 2) * 2 ^ e := by
    rw [two_zpow_eq_four_mul e]
    push_cast
    ring
  obtain ⟨hbetween, hexponent⟩ := shortestFrom_spec (by split <;> omega) (by omega) hend habove
    (shortest.eq_1 m e).symm
  rw [hlower, hupper] at hbetween
  exact ⟨⟨hbetween.low, hbetween.high, hbetween.ends.imp_left fun h => by simpa using h⟩, hexponent⟩

section Shortest

variable {m : ℕ} {e : ℤ} (hm : Canonical m e) (hpos : 0 < m) (he : e ≤ 971)

include hm hpos he

/-- The shortest decimal of a float rounds to it. -/
theorem rounds_shortest : Rounds m e (shortest m e).number := (shortest_spec hm hpos he).1

/-- The digits of the shortest decimal fit a word of 64 bits. -/
theorem digits_shortest_lt : (shortest m e).digits < 2 ^ 64 := by
  obtain ⟨hrounds, hfine⟩ := shortest_spec hm hpos he
  have hunit : (0 : ℚ) < 10 ^ (shortest m e).exponent := by positivity
  have hm' : (m : ℚ) + 1 ≤ 2 ^ 53 := by exact_mod_cast hm.digits
  have hquarter := two_zpow_eq_four_mul e
  rw [zpow_add_one₀ (by norm_num)] at hfine
  have hnumber : ((shortest m e).digits : ℚ) * 10 ^ (shortest m e).exponent <
      2 ^ 64 * 10 ^ (shortest m e).exponent := by
    have hhigh : (shortest m e).number ≤ (m + 1 / 2) * 2 ^ e := hrounds.high
    unfold Scientific.number at hhigh
    have hbound : ((m : ℚ) + 1 / 2) * 2 ^ e ≤ 2 ^ 53 * 2 ^ e :=
      mul_le_mul_of_nonneg_right (by linarith) (by positivity)
    linarith
  exact_mod_cast lt_of_mul_lt_mul_right hnumber hunit.le

/-- The shortest decimal has not many more places than the least float. -/
theorem le_exponent_shortest : -327 ≤ (shortest m e).exponent := by
  have hfine := (shortest_spec hm hpos he).2
  by_contra hlow
  have hleast := hm.exponent
  exact hfine.not_ge (ten_zpow_le_two_zpow (by omega) (by omega))

/-- The shortest decimal of a float is not more than twice as great. -/
theorem number_shortest_le :
    0 < (shortest m e).number ∧ (shortest m e).number ≤ 2 * (m * 2 ^ e) := by
  have hrounds := rounds_shortest hm hpos he
  have hunit : (0 : ℚ) < 2 ^ e := by positivity
  have hm' : (1 : ℚ) ≤ m := by exact_mod_cast hpos
  have hlower := sub_half_le_lowerEnd m e
  refine ⟨(mul_pos (by linarith) hunit).trans_le hrounds.low, hrounds.high.trans ?_⟩
  rw [← mul_assoc]
  exact mul_le_mul_of_nonneg_right (by linarith) hunit.le

/-- The shortest decimal of a float that is not too great has not many zeros after its digits. -/
theorem exponent_shortest_le (hbound : (m : ℚ) * 2 ^ e ≤ 2 ^ 512) :
    (shortest m e).exponent ≤ 308 := by
  by_contra hgreat
  obtain ⟨hpositive, hhigh⟩ := number_shortest_le hm hpos he
  have hdigits : (1 : ℚ) ≤ (shortest m e).digits := by
    have hne : (shortest m e).digits ≠ 0 := by
      intro hzero
      rw [Scientific.number, hzero, Nat.cast_zero, zero_mul] at hpositive
      exact lt_irrefl _ hpositive
    exact_mod_cast Nat.one_le_iff_ne_zero.mpr hne
  have hten : (2 : ℚ) ^ (514 : ℤ) ≤ 10 ^ (shortest m e).exponent :=
    two_zpow_le_ten_zpow (by omega) (by omega)
  have hnumber : (10 : ℚ) ^ (shortest m e).exponent ≤ (shortest m e).number :=
    le_mul_of_one_le_left (by positivity) hdigits
  have htwo : (2 : ℚ) ^ (514 : ℤ) = 4 * 2 ^ 512 := by
    rw [show (4 : ℚ) = 2 ^ 2 by norm_num, ← pow_add]
    rfl
  have hgap : (0 : ℚ) < 2 ^ 512 := by positivity
  rw [htwo] at hten
  generalize (2 : ℚ) ^ 512 = bound at hbound hten hgap
  linarith

end Shortest

end Dice.Decimal
