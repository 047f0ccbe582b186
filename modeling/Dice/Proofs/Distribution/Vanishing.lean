import Dice.Overflow
import Dice.Proofs.Distribution.Finite
import Dice.Proofs.Distribution.Offsets
import Dice.Proofs.Notation.Grammar
import Dice.Proofs.Random.Draws
import Dice.Session.Session

namespace Dice

open Dice.Binary Dice.Notation Dice.Random

/-!
# Totals that vanish

The least total of a pool is made in one way only, with a one on every die, and so is the greatest.
With floats its weight is the share of a face, multiplied with itself once for each further die and
rounded every time.  The error of one such step is next to nothing, but not compared with a product
that is itself next to zero: there it is up to half of the least float, and half of the least float
is rounded to zero.

* `Distribution.sharePower` — the share of a face multiplied with itself.
* `Distribution.exists_sharePower` — how far it may be from the exact power.
* `Distribution.sharePower_pos`, `Distribution.sharePower_eq_zero` — where it is above zero, and
  where it is zero.
* `Pool.weightOf_end`, `Pool.sharePower_le` — it is what both bounds weigh, and no sum of the dice
  weighs less.
* `Pool.totals_above_zero` — so all totals are above zero if the least one is, and the least one is
  unless there are too many sequences of faces.
-/

namespace Distribution

/-! ### Powers of a share -/

/-- The share of a face multiplied with itself some further times, and rounded every time. -/
def sharePower (faces : ℕ) : ℕ → Float
  | 0 => faceWeight faces
  | further + 1 => sharePower faces further * faceWeight faces

/-- Half of the least float, which is what a product may be off by next to zero. -/
def half : ℚ := 1 / 2 ^ 1075

theorem half_pos : 0 < half := by unfold half; positivity

theorem half_lt_limit : half < limit :=
  ((div_le_one (by positivity)).mpr (one_le_pow₀ one_le_two)).trans_lt one_lt_limit

/-- A quarter of half the least float, as a fraction. -/
theorem half_div_four : half / 4 = 1 / 2 ^ 1077 := by
  rw [half, show (2 : ℚ) ^ 1077 = 2 ^ 1075 * 2 ^ 2 from pow_add 2 1075 2, div_div]
  norm_num

/-- Each step is off by one rounding and by half of the least float.  The halves add up to one least
    float, or to some halves of it, if each step leaves less than all but one of them. -/
theorem exists_sharePower {faces : ℕ} {s : ℚ} (hs : HasValue (faceWeight faces : Float) s)
    (hshare : s ≤ 1 / 2) (n : ℕ) :
    ∃ v, HasValue (sharePower faces n) v ∧ v ≤ 1 ∧ (s * ratio) ^ (n + 1) ≤ v + 2 * half ∧
      ∀ k, 0 ≤ k → s / ratio * k + 1 ≤ k → v ≤ (s / ratio) ^ (n + 1) + k * half := by
  have hpos : 0 ≤ s := hs.nonneg
  have hhalf := half_pos
  have hless : s * ratio ≤ s := mul_le_of_le_one_right hpos ratio_le_one
  induction n with
  | zero =>
    refine ⟨s, hs, by linarith, ?_, fun k hk _ => ?_⟩
    · rw [pow_one]
      linarith
    · have hmore : s ≤ s / ratio := le_div_self hpos ratio_pos ratio_le_one
      have hk' : 0 ≤ k * half := mul_nonneg hk hhalf.le
      rw [pow_one]
      linarith
  | succ n ih =>
    obtain ⟨v, hv, hone, hlow, hhigh⟩ := ih
    have hproduct : v * s ≤ 1 := mul_le_one₀ hone hpos (by linarith)
    have hproduct' : 0 ≤ v * s := mul_nonneg hv.nonneg hpos
    obtain ⟨w, hw, hround⟩ := hv.mul hs (hproduct.trans_lt one_lt_limit)
    refine ⟨w, hw, hround.mono hasValue_one.roundsTo hproduct' hproduct, ?_, fun k hk hstep => ?_⟩
    · -- At most half of what was lost before is left, and another half is lost.
      calc
        (s * ratio) ^ (n + 1 + 1) = (s * ratio) ^ (n + 1) * (s * ratio) := pow_succ _ _
        _ ≤ (v + 2 * half) * (s * ratio) :=
          mul_le_mul_of_nonneg_right hlow (mul_nonneg hpos ratio_pos.le)
        _ = v * s * ratio + 2 * half * (s * ratio) := by ring
        _ ≤ (w + half) + 2 * half * (1 / 2) :=
          add_le_add (hround.mul_ratio_le_add hproduct')
            (mul_le_mul_of_nonneg_left (hless.trans hshare) (by linarith))
        _ = w + 2 * half := by ring
    · calc
        w ≤ v * s / ratio + half := hround.le_div_ratio_add hproduct'
        _ = v * (s / ratio) + half := by rw [mul_div_assoc]
        _ ≤ ((s / ratio) ^ (n + 1) + k * half) * (s / ratio) + half :=
          add_le_add (mul_le_mul_of_nonneg_right (hhigh k hk hstep)
            (div_nonneg hpos ratio_pos.le)) le_rfl
        _ = (s / ratio) ^ (n + 1 + 1) + (s / ratio * k + 1) * half := by ring
        _ ≤ (s / ratio) ^ (n + 1 + 1) + k * half :=
          add_le_add le_rfl (mul_le_mul_of_nonneg_right hstep hhalf.le)

/-! ### The share of a face -/

/-- The share of a face is off by one rounding only. -/
theorem exists_share {faces : ℕ} (hf : 2 ≤ faces) (hlt : faces < 2 ^ 53) :
    ∃ s, HasValue (faceWeight faces : Float) s ∧ s ≤ 1 / 2 ∧ 1 / faces * ratio ≤ s ∧
      s ≤ 1 / faces / ratio := by
  obtain ⟨s, hs, hround, hhigh⟩ := exists_faceWeight (by omega) hlt
  have hf' : (2 : ℚ) ≤ faces := by exact_mod_cast hf
  have hshare : 1 / (faces : ℚ) ≤ 1 / 2 := one_div_le_one_div_of_le two_pos hf'
  have htwo : RoundsTo (1 / 2) (1 / 2) := by
    have hcanonical : Canonical (2 ^ 52) (-53) := ⟨by decide, by decide, .inl le_rfl⟩
    have hrounds := hcanonical.roundsTo
    norm_num at hrounds ⊢
    exact hrounds
  have hlow := (hround.close (least_le_share (by omega) hlt)).low
  rw [pow_one] at hlow
  exact ⟨s, hs, hround.mono htwo (by positivity) hshare, hlow, hhigh⟩

/-- Roundings as there are in a power do not make a tenth together. -/
theorem nine_tenths_le_ratio_pow {k : ℕ} (h : k ≤ 2 ^ 49) : 9 / 10 ≤ ratio ^ k := by
  have hk : (k : ℚ) ≤ 2 ^ 49 := by exact_mod_cast h
  refine le_trans ?_ (one_sub_le_ratio_pow k)
  linarith

section Share

variable {s q : ℚ} (hpos : 0 ≤ q) {n : ℕ} (hn : n ≤ 2 ^ 32)

include hpos hn

/-- The powers of a share that was rounded, with one rounding more for every factor, keep nine
    tenths of the exact ones. -/
theorem le_pow_of_share (h : q * ratio ≤ s) : 9 / 10 * q ^ n ≤ (s * ratio) ^ n := by
  have hratio : 9 / 10 ≤ ratio ^ (n * 2) := nine_tenths_le_ratio_pow (by omega)
  calc
    9 / 10 * q ^ n ≤ ratio ^ (n * 2) * q ^ n :=
      mul_le_mul_of_nonneg_right hratio (pow_nonneg hpos n)
    _ = (q * ratio * ratio) ^ n := by ring
    _ ≤ (s * ratio) ^ n :=
      pow_le_pow_left₀ (by have := ratio_pos; positivity)
        (mul_le_mul_of_nonneg_right h ratio_pos.le) n

/-- The powers of a share that was rounded, with one rounding more for every factor, stay within ten
    ninths of the exact ones. -/
theorem pow_le_of_share (hs : 0 ≤ s) (h : s ≤ q / ratio) : (s / ratio) ^ n ≤ 10 / 9 * q ^ n := by
  have hratio : 9 / 10 ≤ ratio ^ (n * 2) := nine_tenths_le_ratio_pow (by omega)
  calc
    (s / ratio) ^ n ≤ (q / ratio / ratio) ^ n :=
      pow_le_pow_left₀ (div_nonneg hs ratio_pos.le) (div_le_div_of_nonneg_right h ratio_pos.le) n
    _ = q ^ n / ratio ^ (n * 2) := by rw [div_div, ← pow_two, div_pow, ← pow_mul, Nat.mul_comm]
    _ ≤ q ^ n / (9 / 10) := div_le_div_of_nonneg_left (pow_nonneg hpos n) (by norm_num) hratio
    _ = 10 / 9 * q ^ n := by ring

end Share

/-! ### Powers above zero and powers that are zero -/

/-- The value of a float is a multiple of the least one. -/
theorem exists_units {x : Float} {v : ℚ} (h : HasValue x v) : ∃ m : ℕ, v = m * (2 * half) := by
  obtain ⟨m, e, hm, -, -, rfl⟩ := h
  obtain ⟨k, rfl⟩ := Int.exists_add_of_le hm.exponent
  refine ⟨m * 2 ^ k, ?_⟩
  rw [half, ← half_mul_least, zpow_add₀ two_ne_zero, zpow_natCast]
  generalize (2 : ℚ) ^ (-1074 : ℤ) = least
  push_cast
  ring

/-- A die with one face shows it, however often it is thrown. -/
theorem sharePower_one (n : ℕ) : sharePower 1 n = 1 := by
  induction n with
  | zero => decide +kernel
  | succ n ih =>
    rw [sharePower, ih]
    decide +kernel

section Powers

variable {faces n : ℕ} (hlt : faces < 2 ^ 53) (hn : n + 1 ≤ 2 ^ 32)

include hlt hn

/-- The share of a face multiplied with itself is above zero, if there are not too many sequences of
    faces. -/
theorem sharePower_pos (hf : 1 ≤ faces) (h : faces ^ (n + 1) ≤ 2 ^ 1073) :
    ∃ v, HasValue (sharePower faces n) v ∧ 0 < v := by
  rcases hf.eq_or_lt' with rfl | hf
  · exact ⟨1, sharePower_one n ▸ hasValue_one, one_pos⟩
  · obtain ⟨s, hs, hshare, hlow, -⟩ := exists_share hf hlt
    obtain ⟨v, hv, -, hloss, -⟩ := exists_sharePower hs hshare n
    refine ⟨v, hv, ?_⟩
    have hsequences : 4 * half ≤ (1 / faces : ℚ) ^ (n + 1) := by
      have h' : (faces : ℚ) ^ (n + 1) ≤ 2 ^ 1073 := by exact_mod_cast h
      rw [half, four_mul_least, one_div_pow]
      exact one_div_le_one_div_of_le (by positivity) h'
    have hpower := le_pow_of_share (by positivity) hn hlow
    have hhalf := half_pos
    linarith

/-- How many of the least float it may be, where the exact power is next to nothing. -/
theorem exists_few_units (hf : 2 ≤ faces) {b k : ℚ} (hk : 0 ≤ k)
    (hstep : 10 / 9 * (1 / faces : ℚ) * k + 1 ≤ k)
    (hsequences : (1 / faces : ℚ) ^ (n + 1) ≤ b * half) :
    ∃ m : ℕ, HasValue (sharePower faces n) (m * (2 * half)) ∧ 2 * m ≤ 10 / 9 * b + k := by
  obtain ⟨s, hs, hshare, -, hhigh⟩ := exists_share hf hlt
  obtain ⟨v, hv, -, -, hgain⟩ := exists_sharePower hs hshare n
  obtain ⟨m, rfl⟩ := exists_units hv
  have hquotient := pow_le_of_share (by positivity) (n := 1) (by decide) hs.nonneg hhigh
  rw [pow_one, pow_one] at hquotient
  have hpower := pow_le_of_share (by positivity) hn hs.nonneg hhigh
  have hbound := hgain k hk ((add_le_add (mul_le_mul_of_nonneg_right hquotient hk) le_rfl).trans hstep)
  refine ⟨m, hv, le_of_mul_le_mul_right ?_ half_pos⟩
  linarith

/-- Of a die with more than two faces too little is left to make the least float. -/
theorem sharePower_eq_zero_of_three (hf : 3 ≤ faces) (h : 2 ^ 1077 ≤ faces ^ (n + 1)) :
    sharePower faces n = 0 := by
  have hthird : (1 / faces : ℚ) ≤ 1 / 3 :=
    one_div_le_one_div_of_le three_pos (by exact_mod_cast hf)
  have hsequences : (1 / faces : ℚ) ^ (n + 1) ≤ 1 / 4 * half := by
    have h' : (2 : ℚ) ^ 1077 ≤ faces ^ (n + 1) := by exact_mod_cast h
    rw [one_div_mul_eq_div, half_div_four, one_div_pow]
    exact one_div_le_one_div_of_le (by positivity) h'
  obtain ⟨m, hvalue, hm⟩ :=
    exists_few_units hlt hn (by omega) (k := 27 / 17) (by norm_num) (by linarith) hsequences
  have hm' : (m : ℚ) < 1 := by linarith
  obtain rfl : m = 0 := Nat.lt_one_iff.mp (by exact_mod_cast hm')
  rw [Nat.cast_zero, zero_mul] at hvalue
  exact hvalue.unique hasValue_zero

omit hlt hn in

/-- Of a die with two faces the least float is left, but half of it is rounded to zero. -/
theorem sharePower_two_eq_zero (hn : n + 1 ≤ 2 ^ 32) (h : 1076 ≤ n + 1) :
    sharePower 2 (n + 1) = 0 := by
  have hsequences : (1 / (2 : ℕ) : ℚ) ^ (n + 1) ≤ 1 / 2 * half := by
    rw [half, ← one_div_pow, ← pow_succ']
    exact pow_le_pow_of_le_one (by norm_num) (by norm_num) h
  obtain ⟨m, hvalue, hm⟩ := exists_few_units (by decide) hn le_rfl (k := 9 / 4) (by norm_num)
    (by norm_num) hsequences
  obtain ⟨s, hs, hshare, -, -⟩ := exists_share le_rfl (by decide : 2 < 2 ^ 53)
  have hone : (m : ℚ) ≤ 1 := by
    have hm' : (m : ℚ) < (1 + 1 : ℕ) := by push_cast; linarith
    exact_mod_cast Nat.lt_succ_iff.mp (Nat.cast_lt.mp hm')
  have hhalf := half_pos
  have hproduct : m * (2 * half) * s ≤ half := calc
    m * (2 * half) * s ≤ 1 * (2 * half) * (1 / 2) :=
      mul_le_mul (mul_le_mul_of_nonneg_right hone (by linarith)) hshare hs.nonneg (by linarith)
    _ = half := by ring
  obtain ⟨w, hw, hround⟩ := hvalue.mul hs (hproduct.trans_lt half_lt_limit)
  have hzero : w = 0 := hround.eq_zero (mul_nonneg hvalue.nonneg hs.nonneg) hproduct
  exact (hzero ▸ hw).unique hasValue_zero

/-- It is zero if there are too many. -/
theorem sharePower_eq_zero (h : 2 ^ 1077 ≤ faces ^ (n + 1)) : sharePower faces n = 0 := by
  have hf : 2 ≤ faces := by
    by_contra hf
    have hone : faces ^ (n + 1) ≤ 1 :=
      pow_le_one₀ (Nat.zero_le _) (Nat.lt_succ_iff.mp (not_le.mp hf))
    have hmany : 1 < 2 ^ 1077 := one_lt_pow₀ one_lt_two (by decide)
    exact absurd (hmany.trans_le (h.trans hone)) (lt_irrefl 1)
  rcases hf.eq_or_lt' with rfl | hf
  · have hcount : 1077 ≤ n + 1 := (pow_le_pow_iff_right₀ one_lt_two).mp h
    obtain ⟨n, rfl⟩ := Nat.exists_eq_add_of_le' (by omega : 1 ≤ n)
    exact sharePower_two_eq_zero (by omega) (by omega)
  · exact sharePower_eq_zero_of_three hlt hn hf h

end Powers

/-! ### One pair only -/

/-- An outcome that only one pair makes has the product of their weights. -/
theorem productsAt_of_only {W : Type} [Weight W] {d e : Distribution W} {o x : Int}
    (hx : x ∈ d.outcomes) (hrest : o - x ∈ e.outcomes)
    (honly : ∀ k ∈ d.outcomes, o - k ∈ e.outcomes → k = x) :
    productsAt d e o = [d.weightOf x * e.weightOf (o - x)] := by
  have hfilter : (d.outcomes.filter fun k => o - k ∈ e.outcomes) = [x] := by
    have hsame : ∀ k ∈ d.outcomes, decide (o - k ∈ e.outcomes) = decide (k = x) := fun k hk =>
      decide_eq_decide.mpr ⟨honly k hk, fun heq => heq ▸ hrest⟩
    rw [List.filter_congr hsame, List.filter_eq, d.nodup_outcomes.count, if_pos hx]
    rfl
  rw [productsAt, hfilter]
  rfl

end Distribution

namespace Pool

open Dice.Distribution

/-! ### The least and the greatest total -/

section Ends

variable {faces : ℕ} (hf : 1 ≤ faces) (hlt : faces < 2 ^ 53)

include hf hlt

/-- Powers of a share have values. -/
theorem exists_value_sharePower (n : ℕ) : ∃ v, HasValue (sharePower faces n) v := by
  rcases hf.eq_or_lt' with rfl | hf
  · exact ⟨1, sharePower_one n ▸ hasValue_one⟩
  · obtain ⟨s, hs, hshare, -⟩ := exists_share hf hlt
    obtain ⟨v, hv, -⟩ := exists_sharePower hs hshare n
    exact ⟨v, hv⟩

/-- The least and the greatest sum of some dice both have the share of a face, multiplied with itself
    once for each further die. -/
theorem weightOf_end {n : ℕ} {o : Int} (ho : o = n + 1 ∨ o = (n + 1) * faces) :
    (sumOfDice faces (n + 1) : Distribution Float).weightOf o = sharePower faces n := by
  induction n generalizing o with
  | zero =>
    rw [sumOfDice_one, sharePower]
    refine weightOf_uniform (mem_outcomes_uniform.mpr ?_)
    push_cast at ho
    omega
  | succ n ih =>
    have hsplit : ((n + 1 : ℕ) + 1 : Int) * faces = (n + 1) * faces + faces := by
      push_cast
      ring
    have hleast : (n + 1 : Int) ≤ (n + 1) * faces := le_mul_of_one_le_right (by omega) (by omega)
    rw [hsplit] at ho
    push_cast at ho
    -- The last die shows a one for the least sum, and its last face for the greatest one.
    obtain ⟨x, hx⟩ : ∃ x : Int,
        (x = n + 1 ∧ o - x = 1) ∨ (x = (n + 1) * faces ∧ o - x = faces) := by
      rcases ho with ho | ho
      · exact ⟨n + 1, .inl ⟨rfl, by omega⟩⟩
      · exact ⟨(n + 1) * faces, .inr ⟨rfl, by omega⟩⟩
    have hmem : x ∈ (sumOfDice faces (n + 1) : Distribution Float).outcomes :=
      (mem_outcomes_sumOfDice hf).mpr (by omega)
    have hrest : o - x ∈ (uniform faces : Distribution Float).outcomes :=
      mem_outcomes_uniform.mpr (by omega)
    have hproduct := productsAt_of_only hmem hrest fun k hk hk' => by
      rw [mem_outcomes_sumOfDice hf] at hk
      rw [mem_outcomes_uniform] at hk'
      omega
    obtain ⟨v, hv⟩ := exists_value_sharePower hf hlt (n + 1)
    rw [sumOfDice_succ, weightOf_convolve, hproduct, ih (hx.imp And.left And.left),
      weightOf_uniform hrest]
    exact hv.zero_add_eq

/-- The weights of sums of dice have values, unless there are more dice and faces than fit anywhere. -/
theorem exists_value_weightOf {n : ℕ} (hsteps : (n + 1) * (faces + 2) ≤ 2 ^ 61) {o : Int}
    (ho : o ∈ (sumOfDice faces (n + 1) : Distribution Float).outcomes) :
    ∃ w, HasValue ((sumOfDice faces (n + 1)).weightOf o) w ∧ w ≤ 2 ^ 512 := by
  obtain ⟨hbounded, -⟩ := bounded_sumOfDice hf hlt (one_lt_limit_mul hsteps)
  obtain ⟨w, hw, hbound⟩ := hbounded _ (weightOf_mem_entries ho)
  refine ⟨w, hw, hbound.trans ?_⟩
  rw [div_le_iff₀ (pow_pos ratio_pos _), ← div_le_iff₀' (by positivity)]
  exact le_ratio_pow hsteps

/-- No sum of some dice weighs less than the least one. -/
theorem sharePower_le {n : ℕ} (hsteps : (n + 1) * (faces + 2) ≤ 2 ^ 61) {o : Int}
    (ho : o ∈ (sumOfDice faces (n + 1) : Distribution Float).outcomes) {v w : ℚ}
    (hv : HasValue (sharePower faces n) v)
    (hw : HasValue ((sumOfDice faces (n + 1)).weightOf o) w) : v ≤ w := by
  induction n generalizing o v w with
  | zero =>
    rw [sumOfDice_one] at ho
    rw [sumOfDice_one, weightOf_uniform ho] at hw
    exact (hv.value_unique hw).le
  | succ n ih =>
    have hsteps' : (n + 1) * (faces + 2) ≤ 2 ^ 61 :=
      (Nat.mul_le_mul_right _ (Nat.le_succ _)).trans hsteps
    obtain ⟨-, hcovers⟩ := bounded_sumOfDice hf hlt (one_lt_limit_mul hsteps)
    rw [sumOfDice_succ] at hw ho
    -- Any product that is added up is at least that of the least sum, which the die multiplies too.
    obtain ⟨x, hx, hface⟩ : ∃ x ∈ (sumOfDice faces (n + 1) : Distribution Float).outcomes,
        o - x ∈ (uniform faces : Distribution Float).outcomes := by
      obtain ⟨x, hx, y, hy, rfl⟩ := mem_outcomes_convolve.mp ho
      exact ⟨x, hx, by rwa [add_sub_cancel_left]⟩
    have hmem : (sumOfDice faces (n + 1) : Distribution Float).weightOf x *
        (uniform faces : Distribution Float).weightOf (o - x) ∈
          productsAt (sumOfDice faces (n + 1)) (uniform faces) o :=
      List.mem_map_of_mem (List.mem_filter.mpr ⟨hx, decide_eq_true hface⟩)
    obtain ⟨a, ha, hbound⟩ := exists_value_weightOf hf hlt hsteps' hx
    obtain ⟨b, hb⟩ := exists_value_sharePower hf hlt n
    obtain ⟨s, hs, hround, -⟩ := exists_faceWeight hf hlt
    have hone : s ≤ 1 := hround.mono hasValue_one.roundsTo (by positivity) (share_le_one hf)
    have hba : b ≤ a := ih hsteps' hx hb ha
    have hless : b * s ≤ a * s := mul_le_mul_of_nonneg_right hba hs.nonneg
    have hlimit : a * s < limit := calc
      a * s ≤ a := mul_le_of_le_one_right ha.nonneg hone
      _ ≤ 2 ^ 512 := hbound
      _ < limit := pow_lt_limit (by decide)
    obtain ⟨u, hu, hproduct⟩ := ha.mul hs hlimit
    obtain ⟨v', hv', hleast⟩ := hb.mul hs (hless.trans_lt hlimit)
    rw [weightOf_uniform hface] at hmem
    calc
      v = v' := hv.value_unique hv'
      _ ≤ u := hleast.mono hproduct (mul_nonneg hb.nonneg hs.nonneg) hless
      _ ≤ w := hcovers n n.lt_succ_self o _ hmem u w hu hw

end Ends

/-! ### Pools -/

/-- The number of faces is small enough to be a float exactly. -/
theorem faces_lt (p : Pool) : p.faces.toNat < 2 ^ 53 := p.faces.toNat_lt.trans (by decide)

section Totals

variable {p : Pool} (hc : 1 ≤ p.count.toNat) (hf : 1 ≤ p.faces.toNat)

include hc hf

/-- The bounds of a pool have the share of a face, multiplied with itself once for each further
    die. -/
theorem weightOf_bounds :
    (p.totals : Distribution Float).weightOf p.lowest =
      sharePower p.faces.toNat (p.count.toNat - 1) ∧
    (p.totals : Distribution Float).weightOf p.highest =
      sharePower p.faces.toNat (p.count.toNat - 1) := by
  obtain ⟨n, hn⟩ := Nat.exists_eq_add_of_le' hc
  simp only [totals, weightOf_shift, lowest, highest, hn, add_sub_cancel_right]
  push_cast
  exact ⟨weightOf_end hf p.faces_lt (.inl rfl), weightOf_end hf p.faces_lt (.inr rfl)⟩

omit hf in

/-- The dice are no more than a word of 32 bits counts. -/
theorem further_le : p.count.toNat - 1 + 1 ≤ 2 ^ 32 :=
  Nat.sub_add_cancel hc ▸ p.count.toNat_lt.le

/-- With no more sequences of faces the least total is not rounded to zero. -/
theorem weightOf_lowest_pos (h : p.faces.toNat ^ p.count.toNat ≤ 2 ^ 1073) :
    0 < (p.totals : Distribution Float).weightOf p.lowest := by
  obtain ⟨v, hv, hpos⟩ :=
    sharePower_pos p.faces_lt (further_le hc) hf ((Nat.sub_add_cancel hc).symm ▸ h)
  rw [(weightOf_bounds hc hf).1]
  exact (hasValue_zero.lt_iff hv).mpr hpos

/-- With that many sequences of faces the bounds are rounded to zero. -/
theorem weightOf_bounds_eq_zero (h : 2 ^ 1077 ≤ p.faces.toNat ^ p.count.toNat) :
    (p.totals : Distribution Float).weightOf p.lowest = 0 ∧
      (p.totals : Distribution Float).weightOf p.highest = 0 := by
  have hzero : sharePower p.faces.toNat (p.count.toNat - 1) = 0 :=
    sharePower_eq_zero p.faces_lt (further_le hc) ((Nat.sub_add_cancel hc).symm ▸ h)
  obtain ⟨hlowest, hhighest⟩ := weightOf_bounds hc hf
  exact ⟨hlowest.trans hzero, hhighest.trans hzero⟩

/-- If the least total is above zero, the steps in which the totals are computed are few. -/
theorem steps_le (h : 0 < (p.totals : Distribution Float).weightOf p.lowest) :
    p.count.toNat * (p.faces.toNat + 2) ≤ 2 ^ 61 := by
  have hfaces : p.faces.toNat < 2 ^ 32 := p.faces.toNat_lt
  rcases hf.eq_or_lt' with hone | hmany
  · have hcount : p.count.toNat < 2 ^ 32 := p.count.toNat_lt
    rw [hone]
    omega
  · -- With more dice the least total would be rounded to zero.
    have hfew : p.count.toNat < 1077 := by
      by_contra hcount
      have hsequences : 2 ^ 1077 ≤ p.faces.toNat ^ p.count.toNat := calc
        2 ^ 1077 ≤ 2 ^ p.count.toNat := pow_le_pow_right₀ one_le_two (not_lt.mp hcount)
        _ ≤ p.faces.toNat ^ p.count.toNat := Nat.pow_le_pow_left hmany _
      rw [(weightOf_bounds_eq_zero hc hf hsequences).1, hasValue_zero.lt_iff hasValue_zero] at h
      exact lt_irrefl _ h
    calc
      p.count.toNat * (p.faces.toNat + 2) ≤ 1077 * (2 ^ 32 + 2) :=
        Nat.mul_le_mul hfew.le (by omega)
      _ ≤ 2 ^ 61 := by decide

/-- If the least total is above zero, so are all others. -/
theorem weightOf_pos_of_lowest (h : 0 < (p.totals : Distribution Float).weightOf p.lowest) {o : Int}
    (ho : o ∈ (p.totals : Distribution Float).outcomes) :
    0 < (p.totals : Distribution Float).weightOf o := by
  have hsteps := steps_le hc hf h
  obtain ⟨n, hn⟩ := Nat.exists_eq_add_of_le' hc
  obtain ⟨v, hv⟩ := exists_value_sharePower hf p.faces_lt n
  rw [(weightOf_bounds hc hf).1, hn, Nat.add_sub_cancel, hasValue_zero.lt_iff hv] at h
  rw [totals, mem_outcomes_shift, hn] at ho
  rw [hn] at hsteps
  rw [totals, weightOf_shift, hn]
  obtain ⟨w, hw, -⟩ := exists_value_weightOf hf p.faces_lt hsteps ho
  rw [hasValue_zero.lt_iff hw]
  exact h.trans_le (sharePower_le hf p.faces_lt hsteps ho hv hw)

end Totals

/-- All totals of a pool that is read have a probability above zero exactly if the least one has.  It
    has one if the dice can fall in no more than `2 ^ 1073` ways, and if they can fall in at least
    `2 ^ 1077` ways then it is rounded to zero, and so is the greatest total.  A record of a roll has a
    probability above zero if the least total has. -/
theorem totals_above_zero {text : String} {p : Pool} (h : Pool.read text = .ok p) :
    let d := (p.law : Law Float).distribution
    ((∀ o, p.lowest ≤ o → o ≤ p.highest → 0 < d.weightOf o) ↔ 0 < d.weightOf p.lowest) ∧
    (p.faces.toNat ^ p.count.toNat ≤ 2 ^ 1073 → 0 < d.weightOf p.lowest) ∧
    (2 ^ 1077 ≤ p.faces.toNat ^ p.count.toNat →
      d.weightOf p.lowest = 0 ∧ d.weightOf p.highest = 0) ∧
    (0 < d.weightOf p.lowest →
      ∀ (S : Type) [WordSource S] (s s' : S) (r : Roll) (now : Calendar.Timestamp),
        p.roll s = .ok (r, s') → 0 < ((Selection.ofPool text p).record r now).probability) := by
  obtain ⟨hc, hf⟩ := positive_of_readChars h
  have hpositive : 0 < (p.totals : Distribution Float).weightOf p.lowest →
      ∀ o ∈ (p.totals : Distribution Float).outcomes,
        0 < (p.totals : Distribution Float).weightOf o :=
    fun hlowest o ho => weightOf_pos_of_lowest hc hf hlowest ho
  have hbounds : p.lowest ≤ p.highest := by
    rw [highest_eq_lowest_add hf]
    omega
  refine ⟨⟨fun hall => hall _ le_rfl hbounds, fun hlowest o hlow hhigh => ?_⟩,
    weightOf_lowest_pos hc hf, weightOf_bounds_eq_zero hc hf,
    fun hlowest S _ s s' r now hroll => ?_⟩
  · exact hpositive hlowest o ((mem_outcomes_totals hc hf).mpr ⟨hlow, hhigh⟩)
  · obtain ⟨hshows, htotal⟩ := shows_of_roll hroll
    refine hpositive hlowest r.total ?_
    rw [htotal]
    exact hshows.total_mem_outcomes hc hf

/-- Three dice of six faces, plus seven, can fall in two hundred and sixteen ways. -/
theorem totals_above_zero_threeDice :
    read "3d6+7" = .ok ⟨3, .standard, 6, 7⟩ ∧
      ∀ o, 10 ≤ o → o ≤ 25 →
        0 < (law ⟨3, .standard, 6, 7⟩ : Law Float).distribution.weightOf o := by
  have hread : read "3d6+7" = .ok ⟨3, .standard, 6, 7⟩ := by decide +kernel
  have hways : (6 : ℕ) ^ 3 ≤ 2 ^ 1073 := calc
    6 ^ 3 ≤ 2 ^ 8 := by decide
    _ ≤ 2 ^ 1073 := pow_le_pow_right₀ one_le_two (by decide)
  obtain ⟨hall, hleast, -⟩ := totals_above_zero hread
  exact ⟨hread, hall.mpr (hleast hways)⟩

/-- Of so many coins even the totals that can come up in one way only are rounded to zero, though none
    of them overflows. -/
theorem not_forall_totals_above_zero :
    ¬ ∀ (text : String) (p : Pool), read text = .ok p →
      FitsWord (p.count.toNat * p.faces.toNat) → FitsWord p.highest →
      ∀ o, p.lowest ≤ o → o ≤ p.highest → 0 < (p.law : Law Float).distribution.weightOf o := by
  intro hall
  obtain ⟨p, hread, hcount, hfaces, hproduct, hhighest⟩ :
      ∃ p, read "1682d2" = .ok p ∧ p.count.toNat = 1682 ∧ p.faces.toNat = 2 ∧
        FitsWord (p.count.toNat * p.faces.toNat) ∧ FitsWord p.highest :=
    ⟨⟨1682, .standard, 2, 0⟩, by decide +kernel, rfl, rfl, by decide +kernel, by decide +kernel⟩
  have hways : 2 ^ 1077 ≤ p.faces.toNat ^ p.count.toNat := by
    rw [hcount, hfaces]
    exact pow_le_pow_right₀ one_le_two (by decide)
  obtain ⟨hzero, -⟩ := weightOf_bounds_eq_zero (by omega) (by omega) hways
  have hpos := hall _ p hread hproduct hhighest p.lowest le_rfl (by rw [lowest, highest, hcount, hfaces]; omega)
  rw [law, hzero, hasValue_zero.lt_iff hasValue_zero] at hpos
  exact lt_irrefl _ hpos

end Pool

end Dice
