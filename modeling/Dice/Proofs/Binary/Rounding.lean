import Mathlib

namespace Dice.Binary

open Float.Model Float.Model.UnpackedFloat

/-!
# Rounding to floats

A number is rounded by moving the point of its binary digits until 53 of them, or fewer near zero,
stand before it.  Two further bits remember the digits that are cut off, which is enough to round to
the nearest whole number, and of two equally near ones to the even one.

* `StandsFor` — the number that a mantissa and its two further bits stand for.
* `Canonical` — the mantissas and exponents of floats, one pair for each float.
* `Rounds` — the numbers that have a float as their nearest one.
* `Nearest`, `exists_nearest` — the float that a number is rounded to.
-/

/-! ### Mantissas with two further bits -/

/-- The mantissa is the whole part of the number.  The first bit tells whether the rest reaches one
    half, the second whether the rest is neither nothing nor one half. -/
structure StandsFor (em : ExtendedMantissa) (x : ℚ) : Prop where
  low : em.mantissa ≤ x
  high : x < em.mantissa + 1
  half : em.roundBit = true ↔ em.mantissa + 1 / 2 ≤ x
  rest : em.stickyBit = true ↔ x ≠ em.mantissa ∧ x ≠ em.mantissa + 1 / 2

/-- A mantissa of which nothing was cut off stands for itself. -/
theorem standsFor_exact (m : ℕ) : StandsFor (.ofMantissaAndAccuracy m .exact) m where
  low := le_refl _
  high := lt_add_one _
  half := by simp [ExtendedMantissa.ofMantissaAndAccuracy]
  rest := by simp [ExtendedMantissa.ofMantissaAndAccuracy]

/-- Moving the point by one digit halves the number. -/
theorem StandsFor.shiftRightOne {em : ExtendedMantissa} {x : ℚ} (h : StandsFor em x) :
    StandsFor em.shiftRightOne (x / 2) := by
  obtain ⟨m, half, rest⟩ := em
  obtain ⟨hlow, hhigh, hhalf, hrest⟩ := h
  simp only at hlow hhigh hhalf hrest
  -- The two bits say together whether the number is more than its mantissa.
  have hbits : (half || rest) = true ↔ x ≠ m := by
    rw [Bool.or_eq_true, hhalf, hrest]
    constructor
    · rintro (h | ⟨h, -⟩)
      · intro heq
        linarith
      · exact h
    · intro hne
      by_cases heq : x = m + 1 / 2
      · exact .inl heq.ge
      · exact .inr ⟨hne, heq⟩
  have hdigits : ((m / 2 : ℕ) : ℚ) * 2 + ((m % 2 : ℕ) : ℚ) = m := by
    exact_mod_cast Nat.div_add_mod' m 2
  -- The digit that is cut off tells whether the rest reaches one half.
  rcases Nat.mod_two_eq_zero_or_one m with hlast | hlast <;> rw [hlast] at hdigits <;>
    push_cast at hdigits <;> refine ⟨?_, ?_, ?_, ?_⟩ <;>
    simp only [ExtendedMantissa.shiftRightOne, hbits, hlast, ← hdigits]
  · linarith
  · linarith
  · simp only [bne_self_eq_false, Bool.false_eq_true, false_iff, not_le]
    linarith
  · constructor
    · intro hne
      exact ⟨fun h => hne (by linarith), fun h => by linarith⟩
    · rintro ⟨hne, -⟩ heq
      exact hne (by linarith)
  · linarith
  · linarith
  · constructor
    · intro
      linarith
    · exact fun _ => rfl
  · constructor
    · intro hne
      exact ⟨fun h => by linarith, fun h => hne (by linarith)⟩
    · rintro ⟨-, hne⟩ heq
      exact hne (by linarith)

/-- Moving the point by some digits divides the number by a power of two. -/
theorem StandsFor.shiftRight {em : ExtendedMantissa} {x : ℚ} (h : StandsFor em x) (n : ℕ) :
    StandsFor (em >>> n) (x / 2 ^ n) := by
  show StandsFor (n.repeat ExtendedMantissa.shiftRightOne em) _
  induction n with
  | zero => simpa [Nat.repeat] using h
  | succ n ih =>
    rw [pow_succ, ← div_div]
    exact ih.shiftRightOne

/-- Rounding is off by one half at most. -/
theorem StandsFor.near {em : ExtendedMantissa} {x : ℚ} (h : StandsFor em x) :
    |(em.roundedMantissa : ℚ) - x| ≤ 1 / 2 := by
  obtain ⟨m, half, rest⟩ := em
  obtain ⟨hlow, hhigh, hhalf, hrest⟩ := h
  rw [abs_le]
  cases half <;> cases rest <;>
    simp only [ExtendedMantissa.roundedMantissa, ExtendedMantissa.accuracy,
      Accuracy.roundToNearestEven] at * <;>
    simp only [Bool.false_eq_true, false_iff, true_iff, not_le, not_and, not_not] at hhalf hrest
  · constructor <;> linarith
  · constructor <;> linarith
  · have hlast : m % 2 = 0 ∨ m % 2 = 1 := Nat.mod_two_eq_zero_or_one m
    have hx : x = m + 1 / 2 := hrest (by intro; linarith)
    rcases hlast with hlast | hlast <;> rw [hlast] <;> push_cast <;> constructor <;> linarith
  · push_cast
    constructor <;> linarith

/-- A whole number is less than one half away, or it is even and one half away. -/
def Within (x : ℚ) (k : ℕ) : Prop := |x - k| < 1 / 2 ∨ |x - k| = 1 / 2 ∧ k % 2 = 0

/-- What is rounded to a whole number is at most one half away from it. -/
theorem Within.near {x : ℚ} {k : ℕ} (h : Within x k) : |x - k| ≤ 1 / 2 := by
  rcases h with h | h
  · exact h.le
  · exact h.1.le

/-- What is at most one half away from an even number is rounded to it. -/
theorem within_of_even {x : ℚ} {k : ℕ} (h : |x - k| ≤ 1 / 2) (heven : k % 2 = 0) : Within x k :=
  h.lt_or_eq.imp_right fun heq => ⟨heq, heven⟩

/-- Rounding takes the whole number within one half, and at one half the even one. -/
theorem StandsFor.roundedMantissa_eq {em : ExtendedMantissa} {x : ℚ} (h : StandsFor em x) {k : ℕ}
    (hk : Within x k) : em.roundedMantissa = k := by
  obtain ⟨m, half, rest⟩ := em
  obtain ⟨hlow, hhigh, hhalf, hrest⟩ := h
  simp only at hlow hhigh hhalf hrest
  obtain ⟨hleft, hright⟩ := abs_le.mp hk.near
  -- Only the mantissa and its successor are that near.
  have hcases : k = m ∨ k = m + 1 := by
    have habove : (k : ℚ) < ((m + 2 : ℕ) : ℚ) := by push_cast; linarith
    have hbelow : (m : ℚ) < ((k + 1 : ℕ) : ℚ) := by push_cast; linarith
    have habove' : k < m + 2 := by exact_mod_cast habove
    have hbelow' : m < k + 1 := by exact_mod_cast hbelow
    omega
  -- At one half the number lies between the two, and the even one is taken.
  have htie : x = m + 1 / 2 → k % 2 = 0 := by
    intro hx
    rcases hk with hk | hk
    · rcases hcases with rfl | rfl <;> rw [hx, abs_lt] at hk <;> push_cast at hk <;> linarith
    · exact hk.2
  cases half <;>
    simp only [Bool.false_eq_true, false_iff, true_iff, not_le] at hhalf
  · have hlower : k = m := by
      rcases hcases with rfl | rfl
      · rfl
      · push_cast at hleft
        linarith
    cases rest <;> exact hlower.symm
  · cases rest <;>
      simp only [Bool.false_eq_true, false_iff, true_iff, not_and, not_not] at hrest
    · have heven := htie (hrest (by intro; linarith))
      show m + m % 2 = k
      omega
    · have hupper : k = m + 1 := by
        rcases hcases with rfl | rfl
        · exact absurd (by linarith) hrest.2
        · rfl
      exact hupper.symm

/-! ### Canonical mantissas and exponents -/

/-- The mantissa and the exponent of a float.  The mantissa has 53 binary digits; it has fewer only
    with the least exponent. -/
structure Canonical (m : ℕ) (e : ℤ) : Prop where
  digits : m < 2 ^ 53
  exponent : -1074 ≤ e
  normal : 2 ^ 52 ≤ m ∨ e = -1074

/-- The exponent that a number with some binary digits is rounded to. -/
theorem targetExponent_eq (m : ℕ) (e : ℤ) :
    Format.binary64.targetExponent (totalExponent m e) = max (m.log2 + e - 52) (-1074) := by
  simp only [Format.targetExponent, totalExponent, Format.mantissaBits, Format.minExponent]
  norm_num
  omega

/-- The point moves to the left as far as there are too many digits. -/
theorem shiftToTargetExponent_eq {m : ℕ} {e : ℤ} {n : ℕ}
    (h : (max (m.log2 + e - 52) (-1074) - e).toNat = n) (acc : Accuracy) :
    shiftToTargetExponent Format.binary64 m e acc =
      (ExtendedMantissa.ofMantissaAndAccuracy m acc >>> n, e + n) := by
  simp only [shiftToTargetExponent, targetExponent_eq, shiftToExponent, h]

/-- The point stays if there are not too many digits. -/
theorem shiftToTargetExponent_of_digits {m : ℕ} {e : ℤ} (hm : m < 2 ^ 53) (he : -1074 ≤ e) :
    shiftToTargetExponent Format.binary64 m e .exact = (⟨m, false, false⟩, e) := by
  have hlog : m.log2 ≤ 52 := by
    by_cases hzero : m = 0
    · simp [hzero]
    · have := (Nat.log2_lt hzero).mpr hm
      omega
  rw [shiftToTargetExponent_eq (n := 0) (by omega), Nat.cast_zero, add_zero]
  rfl

/-- One digit too many moves it once. -/
theorem shiftToTargetExponent_carry {e : ℤ} (he : -1074 ≤ e) :
    shiftToTargetExponent Format.binary64 (2 ^ 53) e .exact = (⟨2 ^ 52, false, false⟩, e + 1) := by
  have hlog : (2 ^ 53 : ℕ).log2 = 53 := Nat.log2_two_pow
  rw [shiftToTargetExponent_eq (n := 1) (by omega)]
  rfl

/-! ### Rounded numbers -/

/-- The float of a mantissa and an exponent before it is packed; without a mantissa it is zero. -/
def unpacked (s : Sign) (m : ℕ) (e : ℤ) : UnpackedFloat :=
  if h : m = 0 then .zero s else .finite s m e (Nat.pos_of_ne_zero h)

/-- Rounding takes the whole number nearest to the digits before the point. -/
theorem roundWithAccuracy_eq (s : Sign) {m : ℕ} {e : ℤ} {acc : Accuracy} {n r : ℕ}
    (hn : (max (m.log2 + e - 52) (-1074) - e).toNat = n)
    (hr : (ExtendedMantissa.ofMantissaAndAccuracy m acc >>> n).roundedMantissa = r)
    (hdigits : r ≤ 2 ^ 53) :
    roundWithAccuracy Format.binary64 s m e acc =
      if r < 2 ^ 53 then unpacked s r (e + n) else unpacked s (2 ^ 52) (e + n + 1) := by
  have he : -1074 ≤ e + n := by omega
  -- The mantissa is rounded once, and moved again if it has got a further digit.
  have hround : roundWithAccuracy Format.binary64 s m e acc =
      let shifted := shiftToTargetExponent Format.binary64 m e acc
      let again :=
        shiftToTargetExponent Format.binary64 shifted.1.roundedMantissa shifted.2 .exact
      unpacked s again.1.mantissa again.2 := rfl
  rw [hround, shiftToTargetExponent_eq hn]
  simp only [hr]
  split
  · next hlt => rw [shiftToTargetExponent_of_digits hlt he]
  · next hge =>
    obtain rfl : r = 2 ^ 53 := by omega
    rw [shiftToTargetExponent_carry he]

/-! ### The nearest float -/

/-- The lower end of the numbers that round to a float, in units of its last digit.  Below a power of
    two the floats lie closer together. -/
def lowerEnd (m : ℕ) (e : ℤ) : ℚ :=
  if m = 2 ^ 52 ∧ -1074 < e then m - 1 / 4 else m - 1 / 2

/-- The number lies between the ends of those that round to the float.  The ends themselves round to
    the float if its last digit is even. -/
structure Rounds (m : ℕ) (e : ℤ) (q : ℚ) : Prop where
  low : lowerEnd m e * 2 ^ e ≤ q
  high : q ≤ (m + 1 / 2) * 2 ^ e
  ends : m % 2 = 0 ∨ lowerEnd m e * 2 ^ e < q ∧ q < (m + 1 / 2) * 2 ^ e

/-- The float that a number is rounded to: it is off by half a unit of the last digit at most, and it
    is any float to which the number rounds. -/
structure Nearest (q : ℚ) (m : ℕ) (e : ℤ) : Prop where
  canonical : Canonical m e
  near : |m * 2 ^ e - q| ≤ max (q / 2 ^ 53) (1 / 2 ^ 1075)
  only : ∀ (k : ℕ) (t : ℤ), Canonical k t → Rounds k t q → m = k ∧ e = t

/-- The number that a float stands for rounds to the float. -/
theorem rounds_self (m : ℕ) (e : ℤ) : Rounds m e (m * 2 ^ e) := by
  have hunit : (0 : ℚ) < 2 ^ e := by positivity
  have hlower : lowerEnd m e < m := by
    unfold lowerEnd
    split <;> linarith
  have hlow := mul_lt_mul_of_pos_right hlower hunit
  have hhigh : (m : ℚ) * 2 ^ e < (m + 1 / 2) * 2 ^ e := mul_lt_mul_of_pos_right (by linarith) hunit
  exact ⟨hlow.le, hhigh.le, .inr ⟨hlow, hhigh⟩⟩

/-- The lower end is no more than half a unit below the float. -/
theorem sub_half_le_lowerEnd (m : ℕ) (e : ℤ) : (m : ℚ) - 1 / 2 ≤ lowerEnd m e := by
  unfold lowerEnd
  split <;> linarith

/-- The digits before the point once it has been moved: no more than 53, and no fewer unless the
    exponent is the least. -/
structure Placed (y : ℚ) (t : ℤ) : Prop where
  exponent : -1074 ≤ t
  below : y < 2 ^ 53
  normal : 2 ^ 52 ≤ y ∨ t = -1074

/-- Moving the point to the exponent of a float leaves a number with the digits of a mantissa. -/
theorem placed_of_standsFor {m : ℕ} {e : ℤ} {acc : Accuracy} {x : ℚ} {n : ℕ}
    (hx : StandsFor (.ofMantissaAndAccuracy m acc) x) (hfit : 52 ≤ m.log2 ∨ e ≤ -1074)
    (hn : (max (m.log2 + e - 52) (-1074) - e).toNat = n) : Placed (x / 2 ^ n) (e + n) := by
  have hmantissa : (ExtendedMantissa.ofMantissaAndAccuracy m acc).mantissa = m := by
    cases acc with
    | exact => rfl
    | inexact o => cases o <;> rfl
  have hlow : (m : ℚ) ≤ x := hmantissa ▸ hx.low
  have hhigh : x < m + 1 := hmantissa ▸ hx.high
  have hpow : (0 : ℚ) < 2 ^ n := by positivity
  refine ⟨by omega, ?_, ?_⟩
  · have hm : (m + 1 : ℚ) ≤ 2 ^ (53 + n) := by
      have hlog : m < 2 ^ (m.log2 + 1) := Nat.lt_log2_self
      have hmono : 2 ^ (m.log2 + 1) ≤ 2 ^ (53 + n) :=
        Nat.pow_le_pow_right (by decide) (by omega)
      exact_mod_cast Nat.lt_of_lt_of_le hlog hmono
    rw [div_lt_iff₀ hpow, ← pow_add]
    linarith
  · by_cases hleast : e + n = -1074
    · exact .inr hleast
    · have hlog : m.log2 = 52 + n := by omega
      have hm : (2 : ℚ) ^ (52 + n) ≤ m := by
        have hne : m ≠ 0 := by
          intro hzero
          rw [hzero, Nat.log2_zero] at hlog
          omega
        rw [← hlog]
        exact_mod_cast Nat.log2_self_le hne
      rw [le_div_iff₀ hpow, ← pow_add]
      exact .inl (by linarith)

/-- The whole number nearest to the digits has no more digits, but for one carry, and no fewer. -/
theorem Placed.digits {y : ℚ} {t : ℤ} {r : ℕ} (h : Placed y t) (hnear : |(r : ℚ) - y| ≤ 1 / 2) :
    r ≤ 2 ^ 53 ∧ (2 ^ 52 ≤ r ∨ t = -1074) := by
  obtain ⟨hlow, hhigh⟩ := abs_le.mp hnear
  constructor
  · have hlt : (r : ℚ) < ((2 ^ 53 + 1 : ℕ) : ℚ) := by
      have := h.below
      push_cast
      linarith
    have hlt' : r < 2 ^ 53 + 1 := by exact_mod_cast hlt
    omega
  · refine h.normal.imp_left fun hy => ?_
    have hlt : ((2 ^ 52 : ℕ) : ℚ) < ((r + 1 : ℕ) : ℚ) := by
      push_cast
      linarith
    have hlt' : 2 ^ 52 < r + 1 := by exact_mod_cast hlt
    omega

/-- Half of the least float, as a fraction. -/
theorem half_mul_least : (1 / 2 * 2 ^ (-1074 : ℤ) : ℚ) = 1 / 2 ^ 1075 := by
  rw [zpow_neg, show (2 : ℚ) ^ (1074 : ℤ) = 2 ^ 1074 from zpow_natCast 2 1074, pow_succ 2 1074]
  field_simp

/-- Half a unit is little compared with 53 digits, or the unit is the least there is. -/
theorem Placed.near {y r : ℚ} {t : ℤ} (h : Placed y t) (hnear : |r - y| ≤ 1 / 2) :
    |r * 2 ^ t - y * 2 ^ t| ≤ max (y * 2 ^ t / 2 ^ 53) (1 / 2 ^ 1075) := by
  have hunit : (0 : ℚ) < 2 ^ t := by positivity
  rw [← sub_mul, abs_mul, abs_of_pos hunit]
  have hhalf : |r - y| * 2 ^ t ≤ 1 / 2 * 2 ^ t :=
    mul_le_mul_of_nonneg_right hnear hunit.le
  rcases h.normal with hy | rfl
  · refine le_max_of_le_left (hhalf.trans ?_)
    have hdigits := mul_le_mul_of_nonneg_right hy hunit.le
    linarith
  · exact le_max_of_le_right (hhalf.trans half_mul_least.le)

/-- The point of a float is placed already. -/
theorem Canonical.placed {m : ℕ} {e : ℤ} (h : Canonical m e) : Placed (m : ℚ) e := by
  refine ⟨h.exponent, by exact_mod_cast h.digits, h.normal.imp_left fun hm => ?_⟩
  exact_mod_cast hm

/-- What rounds to a float is near its value. -/
theorem Rounds.near {m : ℕ} {e : ℤ} {q : ℚ} (h : Rounds m e q) (hm : Canonical m e) :
    |q - m * 2 ^ e| ≤ max ((m : ℚ) * 2 ^ e / 2 ^ 53) (1 / 2 ^ 1075) := by
  have hunit : (0 : ℚ) < 2 ^ e := by positivity
  have hlow : lowerEnd m e ≤ q / 2 ^ e := (le_div_iff₀ hunit).mpr h.low
  have hhigh : q / 2 ^ e ≤ m + 1 / 2 := (div_le_iff₀ hunit).mpr h.high
  have hlower := sub_half_le_lowerEnd m e
  have hnear := hm.placed.near (abs_le.mpr ⟨by linarith, by linarith⟩ : |q / 2 ^ e - m| ≤ 1 / 2)
  rwa [div_mul_cancel₀ q hunit.ne'] at hnear

/-- Of two powers of two the greater is at least twice the other. -/
theorem two_zpow_mul_two_le {s t : ℤ} (h : s < t) : (2 : ℚ) ^ s * 2 ≤ 2 ^ t := by
  rw [← zpow_add_one₀ two_ne_zero]
  exact zpow_le_zpow_right₀ one_le_two h

/-- Digits that make a number which rounds to a float lie within one half of its mantissa. -/
theorem Rounds.within {y : ℚ} {k : ℕ} {t : ℤ} (h : Rounds k t (y * 2 ^ t)) : Within y k := by
  have hunit : (0 : ℚ) < 2 ^ t := by positivity
  have hlower := sub_half_le_lowerEnd k t
  have hlow : lowerEnd k t ≤ y := le_of_mul_le_mul_right h.low hunit
  have hhigh : y ≤ k + 1 / 2 := le_of_mul_le_mul_right h.high hunit
  rcases h.ends with heven | ⟨hlow', hhigh'⟩
  · exact within_of_even (abs_le.mpr ⟨by linarith, by linarith⟩) heven
  · have hlow' : lowerEnd k t < y := lt_of_mul_lt_mul_right hlow' hunit.le
    have hhigh' : y < k + 1 / 2 := lt_of_mul_lt_mul_right hhigh' hunit.le
    exact .inl (abs_lt.mpr ⟨by linarith, by linarith⟩)

section Placed

variable {y : ℚ} {t s : ℤ} {k : ℕ} (h : Placed y t) (hk : Canonical k s)
  (hrounds : Rounds k s (y * 2 ^ t))

include h hk hrounds

/-- With a lower exponent a float to which the number rounds would have too many digits. -/
theorem Placed.exponent_le : t ≤ s := by
  by_contra hlt
  have hnormal : 2 ^ 52 ≤ y := h.normal.resolve_right (by have := hk.exponent; omega)
  have hdigits : (k : ℚ) + 1 ≤ 2 ^ 53 := by exact_mod_cast hk.digits
  have hstep := two_zpow_mul_two_le (not_le.mp hlt)
  have hunit : (0 : ℚ) < 2 ^ s := by positivity
  have hhigh := hrounds.high
  nlinarith

/-- With a higher exponent it is the power of two that the number is just below. -/
theorem Placed.carry (hlt : t < s) : s = t + 1 ∧ k = 2 ^ 52 ∧ Within y (2 ^ 53) := by
  have hleast : -1074 < s := by have := h.exponent; omega
  have hnormal : 2 ^ 52 ≤ k := hk.normal.resolve_right (by omega)
  have hunit : (0 : ℚ) < 2 ^ t := by positivity
  have hbelow := mul_lt_mul_of_pos_right h.below hunit
  have hstep := two_zpow_mul_two_le hlt
  have hlow := hrounds.low
  -- A greater mantissa with the higher exponent lies too far above a number of 53 digits.
  have hpower : k = 2 ^ 52 := by
    by_contra hne
    have hk' : (2 : ℚ) ^ 52 + 1 ≤ k := by exact_mod_cast (by omega : 2 ^ 52 + 1 ≤ k)
    have hlower := sub_half_le_lowerEnd k s
    nlinarith
  have hlower : lowerEnd k s = 2 ^ 52 - 1 / 4 := by
    rw [lowerEnd, if_pos ⟨hpower, hleast⟩, hpower]
    push_cast
    rfl
  rw [hlower] at hlow
  have hnext : s = t + 1 := by
    by_contra hne
    have hstep' := two_zpow_mul_two_le (by omega : t + 1 < s)
    rw [zpow_add_one₀ two_ne_zero] at hstep'
    nlinarith
  have hdouble : (2 : ℚ) ^ s = 2 * 2 ^ t := by rw [hnext, zpow_add_one₀ two_ne_zero, mul_comm]
  rw [hdouble, ← mul_assoc] at hlow
  have hy : (2 ^ 52 - 1 / 4) * 2 ≤ y := le_of_mul_le_mul_right hlow hunit
  refine ⟨hnext, hpower, within_of_even (abs_le.mpr ?_) (by decide)⟩
  have := h.below
  push_cast
  constructor <;> linarith

/-- If a number with its point placed rounds to a float, its digits are next to the mantissa of the
    float, or to the next power of two. -/
theorem Placed.only {r : ℕ} (hr : ∀ k, Within y k → r = k) :
    (s = t ∧ r = k) ∨ (s = t + 1 ∧ k = 2 ^ 52 ∧ r = 2 ^ 53) := by
  rcases (h.exponent_le hk hrounds).eq_or_lt with rfl | hlt
  · exact .inl ⟨rfl, hr k hrounds.within⟩
  · obtain ⟨hnext, hpower, hwithin⟩ := h.carry hk hrounds hlt
    exact .inr ⟨hnext, hpower, hr _ hwithin⟩

end Placed

/-- The nearest float is the one that rounding gives. -/
theorem exists_nearest (s : Sign) {m : ℕ} {e : ℤ} {acc : Accuracy} {x : ℚ}
    (hx : StandsFor (.ofMantissaAndAccuracy m acc) x) (hfit : 52 ≤ m.log2 ∨ e ≤ -1074) :
    ∃ m' e', roundWithAccuracy Format.binary64 s m e acc = unpacked s m' e' ∧
      Nearest (x * 2 ^ e) m' e' := by
  obtain ⟨n, hn⟩ : ∃ n, (max (m.log2 + e - 52) (-1074) - e).toNat = n := ⟨_, rfl⟩
  obtain ⟨r, hr⟩ : ∃ r, (ExtendedMantissa.ofMantissaAndAccuracy m acc >>> n).roundedMantissa = r :=
    ⟨_, rfl⟩
  have hplaced : Placed (x / 2 ^ n) (e + n) := placed_of_standsFor hx hfit hn
  have hmoved : StandsFor (ExtendedMantissa.ofMantissaAndAccuracy m acc >>> n) (x / 2 ^ n) :=
    hx.shiftRight n
  have hvalue : x / 2 ^ n * 2 ^ (e + n) = x * 2 ^ e := by
    rw [zpow_add₀ two_ne_zero, zpow_natCast]
    field_simp
  have hhalf : |(r : ℚ) - x / 2 ^ n| ≤ 1 / 2 := hr ▸ hmoved.near
  have hwhole : ∀ k, Within (x / 2 ^ n) k → r = k := fun k hk => hr ▸ hmoved.roundedMantissa_eq hk
  obtain ⟨hdigits, hnormal⟩ := hplaced.digits hhalf
  have hnear := hplaced.near hhalf
  rw [hvalue] at hnear
  have honly := fun k t (hk : Canonical k t) (hrounds : Rounds k t (x * 2 ^ e)) =>
    hplaced.only hk (by rwa [hvalue]) hwhole
  have hround := roundWithAccuracy_eq s hn hr hdigits
  -- The digits are rounded to as many digits, or to the power of two above them.
  split at hround
  · next hlt =>
    refine ⟨r, e + n, hround, ⟨hlt, hplaced.exponent, hnormal⟩, hnear, fun k t hk hrounds => ?_⟩
    rcases honly k t hk hrounds with ⟨rfl, rfl⟩ | ⟨-, -, rfl⟩
    · exact ⟨rfl, rfl⟩
    · exact absurd hlt (lt_irrefl _)
  · next hge =>
    -- The carry makes the least mantissa of 53 digits, with the next exponent.
    obtain rfl : r = 2 ^ 53 := by omega
    refine ⟨2 ^ 52, e + n + 1, hround, ⟨by decide, ?_, .inl le_rfl⟩, ?_, fun k t hk hrounds => ?_⟩
    · have := hplaced.exponent
      omega
    · have hcarry : ((2 ^ 52 : ℕ) : ℚ) * 2 ^ (e + n + 1) = ((2 ^ 53 : ℕ) : ℚ) * 2 ^ (e + n) := by
        rw [zpow_add_one₀ two_ne_zero]
        push_cast
        ring
      rwa [hcarry]
    · rcases honly k t hk hrounds with ⟨rfl, rfl⟩ | ⟨rfl, rfl, -⟩
      · exact absurd hk.digits (lt_irrefl _)
      · exact ⟨rfl, rfl⟩

end Dice.Binary
