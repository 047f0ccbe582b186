import Dice.Proofs.Binary.Order

namespace Dice.Binary

/-!
# Rounding keeps the order

Every number that is not negative has a place for its point at which no more than 53 digits stand
before it, and the digits have a nearest whole number.  These decide the float that the number is
rounded to, so of two numbers the greater one is not rounded to a lesser float.

* `exists_placed`, `exists_within` — the place of the point, and the nearest whole number.
* `RoundsTo.eq_of_within` — the float that they make.
* `RoundsTo.mono` — rounding keeps the order.
* `RoundsTo.eq_zero` — the numbers that are too small for a float.
-/

/-! ### Where the point stands -/

theorem two_pow_mul_two_zpow (n : ℕ) (t : ℤ) : (2 : ℚ) ^ n * 2 ^ t = 2 ^ (n + t) := by
  rw [← zpow_natCast, ← zpow_add₀ two_ne_zero]

/-- Every number has a place for its point at which it has the digits of a mantissa. -/
theorem exists_placed {q : ℚ} (hq : 0 ≤ q) :
    ∃ (y : ℚ) (t : ℤ), Placed y t ∧ 0 ≤ y ∧ q = y * 2 ^ t := by
  have hmoved : ∀ t : ℤ, 0 ≤ q / 2 ^ t ∧ q = q / 2 ^ t * 2 ^ t := fun t =>
    ⟨by positivity, (div_mul_cancel₀ q (by positivity)).symm⟩
  by_cases hleast : q < 2 ^ (-1022 : ℤ)
  · -- Next to zero the exponent is the least one.
    refine ⟨q / 2 ^ (-1074 : ℤ), -1074, ⟨le_rfl, ?_, .inr rfl⟩, hmoved _⟩
    rw [div_lt_iff₀ (by positivity)]
    calc
      q < 2 ^ (-1022 : ℤ) := hleast
      _ = 2 ^ 52 * 2 ^ (-1074 : ℤ) := by rw [two_pow_mul_two_zpow]; norm_num
      _ ≤ 2 ^ 53 * 2 ^ (-1074 : ℤ) := mul_le_mul_of_nonneg_right (by norm_num) (by positivity)
  · -- Elsewhere as many digits stand before the point as there can be.
    have hleast' : 2 ^ (-1022 : ℤ) ≤ q := not_lt.mp hleast
    have hpos : 0 < q := lt_of_lt_of_le (by positivity) hleast'
    obtain ⟨n, hn⟩ : ∃ n, Int.log 2 q = n := ⟨_, rfl⟩
    have hlow : (2 : ℚ) ^ n ≤ q := hn ▸ Int.zpow_log_le_self one_lt_two hpos
    have hhigh : q < 2 ^ (n + 1) := hn ▸ Int.lt_zpow_succ_log_self one_lt_two q
    have hexponent : -1022 < n + 1 :=
      (zpow_lt_zpow_iff_right₀ (one_lt_two (α := ℚ))).mp (hleast'.trans_lt hhigh)
    refine ⟨q / 2 ^ (n - 52), n - 52, ⟨by omega, ?_, .inl ?_⟩, hmoved _⟩
    · rw [div_lt_iff₀ (by positivity)]
      calc
        q < 2 ^ (n + 1) := hhigh
        _ = 2 ^ 53 * 2 ^ (n - 52) := by rw [two_pow_mul_two_zpow]; congr 1; push_cast; ring
    · rw [le_div_iff₀ (by positivity)]
      calc
        (2 : ℚ) ^ 52 * 2 ^ (n - 52) = 2 ^ n := by
          rw [two_pow_mul_two_zpow]; congr 1; push_cast; ring
        _ ≤ q := hlow

/-! ### The nearest whole number -/

/-- Every number has a whole number that it is rounded to. -/
theorem exists_within {y : ℚ} (hy : 0 ≤ y) : ∃ k, Within y k := by
  obtain ⟨n, hn⟩ : ∃ n, ⌊y⌋₊ = n := ⟨_, rfl⟩
  have hlow : (n : ℚ) ≤ y := hn ▸ Nat.floor_le hy
  have hhigh : y < n + 1 := hn ▸ Nat.lt_floor_add_one y
  have hnext : ((n + 1 : ℕ) : ℚ) = n + 1 := Nat.cast_succ n
  rcases lt_trichotomy y (n + 1 / 2) with h | h | h
  · exact ⟨n, .inl (abs_lt.mpr ⟨by linarith, by linarith⟩)⟩
  · -- Of two numbers next to each other one is even.
    rcases Nat.mod_two_eq_zero_or_one n with heven | hodd
    · exact ⟨n, within_of_even (abs_le.mpr ⟨by linarith, by linarith⟩) heven⟩
    · refine ⟨n + 1, within_of_even (abs_le.mpr ?_) (by omega)⟩
      rw [hnext]
      exact ⟨by linarith, by linarith⟩
  · refine ⟨n + 1, .inl (abs_lt.mpr ?_)⟩
    rw [hnext]
    exact ⟨by linarith, by linarith⟩

/-- A greater number is not rounded to a smaller whole number. -/
theorem Within.mono {x y : ℚ} {k n : ℕ} (hk : Within x k) (hn : Within y n) (h : x ≤ y) :
    k ≤ n := by
  by_contra hlt
  have hcast : (n : ℚ) + 1 ≤ k := by exact_mod_cast not_le.mp hlt
  have hx := (abs_le.mp hk.near).1
  have hy := (abs_le.mp hn.near).2
  -- The numbers are both at one half, but two numbers next to each other are not both even.
  rcases hk with hk | ⟨-, hk⟩
  · have := (abs_lt.mp hk).1
    linarith
  · rcases hn with hn | ⟨-, hn⟩
    · have := (abs_lt.mp hn).2
      linarith
    · have hnext : (k : ℚ) ≤ n + 1 := by linarith
      have hnext' : k ≤ n + 1 := by exact_mod_cast hnext
      omega

/-! ### The nearest float -/

section Placed

variable {y : ℚ} {t : ℤ} {r : ℕ} (h : Placed y t) (hr : Within y r)

include h hr

/-- The nearest whole number to the digits, if it has no more of them, is the mantissa of a float to
    which the number rounds. -/
theorem Placed.rounds : Rounds r t (y * 2 ^ t) := by
  have hunit : (0 : ℚ) < 2 ^ t := by positivity
  obtain ⟨hlow, hhigh⟩ := abs_le.mp hr.near
  -- Below a power of two the digits would not stand before the point.
  have hpower : r = 2 ^ 52 ∧ -1074 < t → (r : ℚ) ≤ y := by
    rintro ⟨rfl, hleast⟩
    have hnormal : 2 ^ 52 ≤ y := h.normal.resolve_right hleast.ne'
    exact_mod_cast hnormal
  have hlower : lowerEnd r t ≤ y := by
    unfold lowerEnd
    split
    · next hcase => linarith [hpower hcase]
    · linarith
  refine ⟨mul_le_mul_of_nonneg_right hlower hunit.le,
    mul_le_mul_of_nonneg_right (by linarith) hunit.le, ?_⟩
  rcases hr with hr | ⟨-, heven⟩
  · obtain ⟨hlow, hhigh⟩ := abs_lt.mp hr
    have hlower' : lowerEnd r t < y := by
      unfold lowerEnd
      split
      · next hcase => linarith [hpower hcase]
      · linarith
    exact .inr ⟨mul_lt_mul_of_pos_right hlower' hunit,
      mul_lt_mul_of_pos_right (by linarith) hunit⟩
  · exact .inl heven

/-- One digit too many moves the point once, to the power of two to which the number rounds. -/
theorem Placed.rounds_carry (hcarry : r = 2 ^ 53) : Rounds (2 ^ 52) (t + 1) (y * 2 ^ t) := by
  have hunit : (0 : ℚ) < 2 ^ t := by positivity
  have hlow := (abs_le.mp hr.near).1
  have hlower : lowerEnd (2 ^ 52) (t + 1) = 2 ^ 52 - 1 / 4 := by
    have hexponent := h.exponent
    rw [lowerEnd, if_pos ⟨rfl, by omega⟩]
    norm_num
  rw [hcarry] at hlow
  push_cast at hlow
  refine ⟨?_, ?_, .inl (by decide)⟩
  · rw [hlower, zpow_add_one₀ two_ne_zero]
    nlinarith
  · rw [zpow_add_one₀ two_ne_zero]
    push_cast
    nlinarith [h.below]

/-- A number with its point placed rounds to the whole number of units next to it. -/
theorem RoundsTo.eq_of_within {v : ℚ} (hv : RoundsTo (y * 2 ^ t) v) : v = r * 2 ^ t := by
  obtain ⟨hdigits, hnormal⟩ := h.digits (abs_sub_comm y r ▸ hr.near)
  rcases hdigits.lt_or_eq with hlt | hcarry
  · exact hv.only r t ⟨hlt, h.exponent, hnormal⟩ (h.rounds hr)
  · have hexponent := h.exponent
    rw [hv.only (2 ^ 52) (t + 1) ⟨by decide, by omega, .inl le_rfl⟩ (h.rounds_carry hr hcarry),
      hcarry, zpow_add_one₀ two_ne_zero]
    push_cast
    ring

end Placed

/-- Rounding keeps the order. -/
theorem RoundsTo.mono {p q v w : ℚ} (hp : RoundsTo p v) (hq : RoundsTo q w) (hpos : 0 ≤ p)
    (h : p ≤ q) : v ≤ w := by
  obtain ⟨x, s, hx, hxpos, rfl⟩ := exists_placed hpos
  obtain ⟨y, t, hy, hypos, rfl⟩ := exists_placed (hpos.trans h)
  obtain ⟨k, hk⟩ := exists_within hxpos
  obtain ⟨n, hn⟩ := exists_within hypos
  obtain rfl := hp.eq_of_within hx hk
  obtain rfl := hq.eq_of_within hy hn
  have hunit : (0 : ℚ) < 2 ^ s := by positivity
  rcases lt_trichotomy s t with hlt | rfl | hlt
  · -- With a greater exponent the mantissa has all digits.
    have hk' : (k : ℚ) ≤ 2 ^ 53 := by exact_mod_cast (hx.digits (abs_sub_comm x k ▸ hk.near)).1
    have hn' : (2 : ℚ) ^ 52 ≤ n := by
      have hnormal := (hy.digits (abs_sub_comm y n ▸ hn.near)).2.resolve_right
        (by have := hx.exponent; omega)
      exact_mod_cast hnormal
    calc
      (k : ℚ) * 2 ^ s ≤ 2 ^ 53 * 2 ^ s := mul_le_mul_of_nonneg_right hk' hunit.le
      _ = 2 ^ 52 * (2 ^ s * 2) := by ring
      _ ≤ n * 2 ^ t := mul_le_mul hn' (two_zpow_mul_two_le hlt) (by positivity) (by positivity)
  · have hdigits : x ≤ y := le_of_mul_le_mul_right h hunit
    exact mul_le_mul_of_nonneg_right (by exact_mod_cast hk.mono hn hdigits) hunit.le
  · -- With a lesser exponent there are too few digits.
    have hx' : 2 ^ 52 ≤ x := hx.normal.resolve_right (by have := hy.exponent; omega)
    have hstep := two_zpow_mul_two_le hlt
    have hbelow := mul_lt_mul_of_pos_right hy.below (by positivity : (0 : ℚ) < 2 ^ t)
    nlinarith

/-- Half of the least float and what is below it rounds to zero. -/
theorem RoundsTo.eq_zero {q v : ℚ} (h : RoundsTo q v) (hpos : 0 ≤ q) (hq : q ≤ 1 / 2 ^ 1075) :
    v = 0 := by
  rw [h.only 0 (-1074) canonical_zero ⟨?_, ?_, .inl rfl⟩, Nat.cast_zero, zero_mul]
  · have hlower : lowerEnd 0 (-1074) = -(1 / 2) := by norm_num [lowerEnd]
    rw [hlower]
    refine le_trans ?_ hpos
    rw [neg_mul, neg_nonpos]
    positivity
  · rw [Nat.cast_zero, zero_add, half_mul_least]
    exact hq

end Dice.Binary
