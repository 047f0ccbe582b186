import Dice.Proofs.Distribution.Addition
import Mathlib.Tactic.FieldSimp

namespace Dice

open scoped BigOperators

/-!
# Mean and variance

With exact weights both moments are expectations: the mean that of the outcome, the variance that of
its squared distance from the mean.  In a sum of independent outcomes the distance is the sum of the
two distances.  Its square has a mixed term, which vanishes as each distance is zero on average.

* `Distribution.mean_eq_expect`, `Distribution.variance_eq_expect` — moments as expectations.
* `Distribution.mean_convolve`, `Distribution.variance_convolve` — moments of a sum.
* `Distribution.mean_shift`, `Distribution.variance_shift` — moments of moved outcomes.
* `Distribution.mean_uniform`, `Distribution.variance_uniform` — moments of a fair die.
* `Pool.moments_of_law` — moments of sums, of moved outcomes and of pools.
-/

namespace Distribution

/-! ### Moments as expectations -/

/-- A value that does not depend on the outcome is expected as often as anything happens. -/
theorem expect_const (d : Distribution Rat) (c : Rat) : (d.expect fun _ => c) = d.total * c := by
  have h := d.expect_mul_right (fun _ => 1) c
  rwa [← total_eq_expect, funext fun _ => one_mul c] at h

/-- Factors that depend on one of two independent outcomes each have expectations of their own. -/
theorem expect_mul (d e : Distribution Rat) (f g : Int → Rat) :
    (d.expect fun x => e.expect fun y => f x * g y) = d.expect f * e.expect g := by
  have hinner : ∀ x, (e.expect fun y => f x * g y) = f x * e.expect g := by
    intro x
    rw [mul_comm (f x), ← expect_mul_right]
    simp only [mul_comm (f x)]
  simp only [hinner, expect_mul_right]

/-- The mean is the outcome expected. -/
theorem mean_eq_expect (d : Distribution Rat) : d.mean = d.expect fun x => (x : Rat) :=
  sum_rat _

/-- How far an outcome is above the mean. -/
def distance (d : Distribution Rat) (o : Int) : Rat := o - d.mean

/-- The variance is the square expected of the distance from the mean. -/
theorem variance_eq_expect (d : Distribution Rat) :
    d.variance = d.expect fun x => d.distance x * d.distance x :=
  sum_rat _

/-- Outcomes are on average as far above the mean as below it. -/
theorem expect_distance {d : Distribution Rat} (h : d.total = 1) : d.expect d.distance = 0 := by
  calc
    d.expect d.distance = d.expect fun x => (x : Rat) + -d.mean := by
      show (d.expect fun x => (x : Rat) - d.mean) = _
      simp only [sub_eq_add_neg]
    _ = d.mean + d.total * -d.mean := by rw [expect_add, expect_const, ← mean_eq_expect]
    _ = 0 := by rw [h, one_mul, add_neg_cancel]

/-! ### Sums of independent outcomes -/

/-- Each mean counts as often as there is something to add it to. -/
theorem mean_convolve (d e : Distribution Rat) :
    (d.convolve e).mean = d.mean * e.total + d.total * e.mean := by
  calc
    (d.convolve e).mean = d.expect fun x => e.expect fun y => (x : Rat) * 1 + 1 * y := by
      rw [mean_eq_expect, expect_convolve]
      push_cast
      simp only [mul_one, one_mul]
    _ = (d.expect fun x => e.expect fun _ => (x : Rat) * 1) +
        d.expect fun _ => e.expect fun y => 1 * (y : Rat) := by
      simp only [expect_add]
    _ = d.mean * e.total + d.total * e.mean := by
      rw [expect_mul d e (fun x => x) fun _ => 1, expect_mul d e (fun _ => 1) fun y => y,
        ← mean_eq_expect, ← mean_eq_expect, ← total_eq_expect, ← total_eq_expect]

section Certain

variable {d e : Distribution Rat}

/-- A sum is as far from its mean as both of its parts together are from theirs. -/
theorem distance_convolve (hd : d.total = 1) (he : e.total = 1) (x y : Int) :
    (d.convolve e).distance (x + y) = d.distance x + e.distance y := by
  simp only [distance, mean_convolve, hd, he]
  push_cast
  ring

/-- The variances of independent outcomes add up. -/
theorem variance_convolve (hd : d.total = 1) (he : e.total = 1) :
    (d.convolve e).variance = d.variance + e.variance := by
  have hsquare : ∀ x y : Int,
      (d.convolve e).distance (x + y) * (d.convolve e).distance (x + y) =
        d.distance x * d.distance x * 1 + 2 * d.distance x * e.distance y +
          1 * (e.distance y * e.distance y) := by
    intro x y
    rw [distance_convolve hd he]
    ring
  -- The mixed term is a product of two expectations, of which the second one is zero.
  have hmixed : (d.expect fun x => e.expect fun y => 2 * d.distance x * e.distance y) = 0 := by
    rw [expect_mul d e (fun x => 2 * d.distance x) e.distance, expect_distance he, mul_zero]
  calc
    (d.convolve e).variance =
        d.expect fun x => e.expect fun y => d.distance x * d.distance x * 1 +
          2 * d.distance x * e.distance y + 1 * (e.distance y * e.distance y) := by
      rw [variance_eq_expect, expect_convolve]
      simp only [hsquare]
    _ = (d.expect fun x => e.expect fun _ => d.distance x * d.distance x * 1) +
          (d.expect fun x => e.expect fun y => 2 * d.distance x * e.distance y) +
          d.expect fun _ => e.expect fun y => 1 * (e.distance y * e.distance y) := by
      simp only [expect_add]
    _ = d.variance * e.total + 0 + d.total * e.variance := by
      rw [hmixed, expect_mul d e (fun x => d.distance x * d.distance x) fun _ => 1,
        expect_mul d e (fun _ => 1) fun y => e.distance y * e.distance y, ← variance_eq_expect,
        ← variance_eq_expect, ← total_eq_expect, ← total_eq_expect]
    _ = d.variance + e.variance := by rw [hd, he, mul_one, one_mul, add_zero]

/-! ### Moved outcomes -/

/-- Moved outcomes have a mean that is moved as far. -/
theorem mean_shift (hd : d.total = 1) (a : Int) : (d.shift a).mean = d.mean + a := by
  rw [mean_eq_expect, mean_eq_expect, expect_shift]
  push_cast
  rw [expect_add, expect_const, hd, one_mul]

/-- Moved outcomes are as far from their mean as before. -/
theorem variance_shift (hd : d.total = 1) (a : Int) : (d.shift a).variance = d.variance := by
  have hdistance : ∀ x : Int, (d.shift a).distance (x + a) = d.distance x := by
    intro x
    rw [distance, distance, mean_shift hd]
    push_cast
    ring
  rw [variance_eq_expect, variance_eq_expect, expect_shift]
  simp only [hdistance]

end Certain

/-! ### A fair die -/

/-- The weights of one die add up to one. -/
theorem total_uniform {faces : Nat} (h : 1 ≤ faces) :
    (uniform faces : Distribution Rat).total = 1 := by
  have hfaces : (faces : Rat) ≠ 0 := Nat.cast_ne_zero.mpr (by omega)
  rw [total_eq_expect, expect_uniform, Finset.sum_const, Nat.card_Icc, nsmul_one,
    Nat.add_sub_cancel, div_self hfaces]

/-- The numbers of the faces add up to half of their count times the next number. -/
theorem sum_faces (faces : Nat) :
    ∑ face ∈ Finset.Icc 1 faces, (face : Rat) = faces * (faces + 1) / 2 := by
  induction faces with
  | zero => simp
  | succ faces ih =>
    rw [Finset.sum_Icc_succ_top (by omega), ih]
    push_cast
    ring

/-- The squared distances of the faces from any point. -/
theorem sum_squares (faces : Nat) (c : Rat) :
    ∑ face ∈ Finset.Icc 1 faces, ((face : Rat) - c) * (face - c) =
      faces * ((faces + 1) * (2 * faces + 1) / 6 - c * (faces + 1) + c * c) := by
  induction faces with
  | zero => simp
  | succ faces ih =>
    rw [Finset.sum_Icc_succ_top (by omega), ih]
    push_cast
    ring

/-- The mean of a die lies halfway between its first and its last face. -/
theorem mean_uniform {faces : Nat} (h : 1 ≤ faces) :
    (uniform faces : Distribution Rat).mean = (faces + 1) / 2 := by
  have hfaces : (faces : Rat) ≠ 0 := Nat.cast_ne_zero.mpr (by omega)
  rw [mean_eq_expect, expect_uniform]
  simp only [Int.cast_natCast, sum_faces]
  field_simp

/-- The variance of one die. -/
theorem variance_uniform {faces : Nat} (h : 1 ≤ faces) :
    (uniform faces : Distribution Rat).variance = ((faces : Rat) ^ 2 - 1) / 12 := by
  have hfaces : (faces : Rat) ≠ 0 := Nat.cast_ne_zero.mpr (by omega)
  rw [variance_eq_expect, expect_uniform]
  simp only [distance, mean_uniform h, Int.cast_natCast, sum_squares]
  field_simp
  ring

end Distribution

namespace Pool

open Dice.Distribution

/-- Each die adds its mean and its variance. -/
theorem moments_sumOfDice {faces : Nat} (h : 1 ≤ faces) (count : Nat) :
    (sumOfDice faces (count + 1) : Distribution Rat).total = 1 ∧
    (sumOfDice faces (count + 1) : Distribution Rat).mean = (count + 1) * (faces + 1) / 2 ∧
    (sumOfDice faces (count + 1) : Distribution Rat).variance =
      (count + 1) * ((faces : Rat) ^ 2 - 1) / 12 := by
  induction count with
  | zero =>
    rw [sumOfDice_one]
    refine ⟨total_uniform h, ?_, ?_⟩
    · rw [mean_uniform h]
      push_cast
      ring
    · rw [variance_uniform h]
      push_cast
      ring
  | succ count ih =>
    obtain ⟨htotal, hmean, hvariance⟩ := ih
    rw [sumOfDice_succ]
    refine ⟨?_, ?_, ?_⟩
    · rw [total_convolve, htotal, total_uniform h, one_mul]
    · rw [mean_convolve, htotal, total_uniform h, hmean, mean_uniform h]
      push_cast
      ring
    · rw [variance_convolve htotal (total_uniform h), hvariance, variance_uniform h]
      push_cast
      ring

/-- With exact weights that add up to one, the means and the variances of independent outcomes add
    up, and an offset moves the mean and keeps the variance.  So the mean of a pool with dice and
    faces is its offset and, for each die, the middle of its faces, and the variance is that of one
    die for each die. -/
theorem moments_of_law :
    (∀ d e : Distribution Rat, d.total = 1 → e.total = 1 →
      (d.convolve e).mean = d.mean + e.mean ∧
      (d.convolve e).variance = d.variance + e.variance) ∧
    (∀ (d : Distribution Rat) (a : Int), d.total = 1 →
      (d.shift a).mean = d.mean + a ∧ (d.shift a).variance = d.variance) ∧
    ∀ p : Pool, 1 ≤ p.count.toNat → 1 ≤ p.faces.toNat →
      (p.law : Law Rat).distribution.mean =
        p.offset.toInt + p.count.toNat * (p.faces.toNat + 1) / 2 ∧
      (p.law : Law Rat).distribution.variance =
        p.count.toNat * ((p.faces.toNat : Rat) ^ 2 - 1) / 12 := by
  refine ⟨fun d e hd he => ⟨?_, variance_convolve hd he⟩,
    fun d a hd => ⟨mean_shift hd a, variance_shift hd a⟩, fun p hc hf => ?_⟩
  · rw [mean_convolve, hd, he, mul_one, one_mul]
  · obtain ⟨count, hcount⟩ := Nat.exists_eq_add_of_le' hc
    obtain ⟨htotal, hmean, hvariance⟩ := moments_sumOfDice hf count
    show (p.totals : Distribution Rat).mean = _ ∧ (p.totals : Distribution Rat).variance = _
    rw [totals, hcount, mean_shift htotal, variance_shift htotal, hmean, hvariance]
    push_cast
    exact ⟨add_comm _ _, rfl⟩

/-- A die of six faces and one of four, moved by two, have moments that add up; three dice of six
    faces, plus seven, have a mean of seventeen and a half. -/
theorem moments_of_law_threeDice :
    (uniform 6 : Distribution Rat).total = 1 ∧ (uniform 4 : Distribution Rat).total = 1 ∧
      ((uniform 6).convolve (uniform 4) : Distribution Rat).variance =
        (uniform 6 : Distribution Rat).variance + (uniform 4 : Distribution Rat).variance ∧
      ((uniform 4).shift 2 : Distribution Rat).mean = (uniform 4 : Distribution Rat).mean + 2 ∧
      1 ≤ (⟨3, .standard, 6, 7⟩ : Pool).count.toNat ∧
      1 ≤ (⟨3, .standard, 6, 7⟩ : Pool).faces.toNat ∧
      (law ⟨3, .standard, 6, 7⟩ : Law Rat).distribution.mean = 35 / 2 ∧
      (law ⟨3, .standard, 6, 7⟩ : Law Rat).distribution.variance = 35 / 4 := by
  obtain ⟨hsum, hshift, hpool⟩ := moments_of_law
  have hsix : (uniform 6 : Distribution Rat).total = 1 := total_uniform (by decide)
  have hfour : (uniform 4 : Distribution Rat).total = 1 := total_uniform (by decide)
  obtain ⟨hmean, hvariance⟩ := hpool ⟨3, .standard, 6, 7⟩ (by decide) (by decide)
  refine ⟨hsix, hfour, (hsum _ _ hsix hfour).2, (hshift _ 2 hfour).1, by decide, by decide,
    hmean.trans ?_, hvariance.trans ?_⟩ <;> decide +kernel

end Pool

end Dice
