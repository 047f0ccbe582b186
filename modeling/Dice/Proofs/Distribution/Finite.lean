import Dice.Proofs.Binary.Errors
import Dice.Proofs.Binary.Monotone
import Dice.Proofs.Distribution.Gathering

namespace Dice

open Dice.Binary

/-!
# Floating-point weights are finite

With floating-point weights a law is computed in many steps, each of which may round up.  A weight of
a law can exceed one only by what is lost in all these steps together.  As long as there are not more
outcomes than fit in the memory of a machine with words of 64 bits, this is far from the greatest
float.

* `Distribution.Bounded` — all weights have values up to a bound.
* `Distribution.Covers` — no weight of a sum is below what is added up to it.
* `exists_foldl_add`, `exists_sum_of_length_le` — adding up weights.
* `Distribution.Bounded.convolve`, `Distribution.Bounded.convolve_uniform` — sums of distributions,
  and one more die.
* `Pool.bounded_totals` — the weights of a pool's totals.
-/

/-! ### Adding up -/

/-- Adding up some weights, each up to `c`, adds one rounding for each of them.  The sum is not below
    the start, nor below any of the weights. -/
theorem exists_foldl_add {c : ℚ} (hc : 1 / 2 ^ 1022 ≤ c) {weights : List Float}
    (hweights : ∀ y ∈ weights, ∃ v, HasValue y v ∧ v ≤ c) {x : Float} {v : ℚ} {j : ℕ}
    (hx : HasValue x v) (hv : v * ratio ^ j ≤ j * c)
    (hfit : (j + weights.length : ℕ) * c < limit * ratio ^ (j + weights.length)) :
    ∃ w, HasValue (weights.foldl (· + ·) x) w ∧
      w * ratio ^ (j + weights.length) ≤ (j + weights.length : ℕ) * c ∧ v ≤ w ∧
      ∀ y ∈ weights, ∀ u, HasValue y u → u ≤ w := by
  -- The invariant is that of the start, `hv`: `j` weights have been added, with a rounding each.
  induction weights generalizing x v j with
  | nil => exact ⟨v, hx, hv, le_rfl, fun y hy => absurd hy List.not_mem_nil⟩
  | cons y weights ih =>
    obtain ⟨u, hu, huc⟩ := hweights y List.mem_cons_self
    have hpow : 0 < ratio ^ j := pow_pos ratio_pos j
    have hpos : 0 < c := lt_of_lt_of_le (by positivity) hc
    have hsum : v + u ≤ (j + 1 : ℕ) * c / ratio ^ j := by
      rw [le_div_iff₀ hpow, add_mul]
      have huc' : u * ratio ^ j ≤ c * 1 :=
        mul_le_mul huc (ratio_pow_le_one j) hpow.le hpos.le
      push_cast
      linarith
    have hcount : c ≤ (j + 1 : ℕ) * c := by
      refine le_mul_of_one_le_left hpos.le ?_
      exact_mod_cast Nat.succ_pos j
    have hleast : 1 / 2 ^ 1022 ≤ (j + 1 : ℕ) * c / ratio ^ j :=
      (hc.trans hcount).trans (le_div_self (hpos.le.trans hcount) hpow (ratio_pow_le_one j))
    have hlimit : v + u < limit := by
      refine hsum.trans_lt ((div_lt_iff₀ hpow).mpr ?_)
      calc
        ((j + 1 : ℕ) : ℚ) * c ≤ (j + (y :: weights).length : ℕ) * c := by
          refine mul_le_mul_of_nonneg_right ?_ hpos.le
          exact_mod_cast Nat.add_le_add_left (Nat.succ_pos _) j
        _ < limit * ratio ^ (j + (y :: weights).length) := hfit
        _ ≤ limit * ratio ^ j :=
          mul_le_mul_of_nonneg_left (ratio_pow_anti (Nat.le_add_right _ _)) limit_pos.le
    obtain ⟨w, hw, hround⟩ := hx.add hu hlimit
    have hw' : w * ratio ^ (j + 1) ≤ (j + 1 : ℕ) * c := by
      have h := hround.mul_ratio_le hsum hleast
      rwa [le_div_iff₀ hpow, mul_assoc, ← pow_succ'] at h
    have hvw : v ≤ w := hx.roundsTo.mono hround hx.nonneg (le_add_of_nonneg_right hu.nonneg)
    have huw : u ≤ w := hu.roundsTo.mono hround hu.nonneg (le_add_of_nonneg_left hx.nonneg)
    rw [List.length_cons, Nat.add_comm weights.length, ← Nat.add_assoc] at hfit ⊢
    obtain ⟨total, htotal, hbound, hwtotal, hothers⟩ :=
      ih (fun z hz => hweights z (List.mem_cons_of_mem y hz)) hw hw' hfit
    refine ⟨total, htotal, hbound, hvw.trans hwtotal, fun z hz a ha => ?_⟩
    rcases List.mem_cons.mp hz with rfl | hz
    · exact (ha.value_unique hu).trans_le (huw.trans hwtotal)
    · exact hothers z hz a ha

/-- Adding up at most `n` weights from nothing takes at most `n` roundings. -/
theorem exists_sum_of_length_le {c : ℚ} (hc : 1 / 2 ^ 1022 ≤ c) {weights : List Float} {n : ℕ}
    (hlength : weights.length ≤ n) (hweights : ∀ y ∈ weights, ∃ v, HasValue y v ∧ v ≤ c)
    (hfit : n * c < limit * ratio ^ n) :
    ∃ w, HasValue (weights.foldl (· + ·) Weight.zero) w ∧ w ≤ n * c / ratio ^ n ∧
      ∀ y ∈ weights, ∀ u, HasValue y u → u ≤ w := by
  have hpos : 0 ≤ c := le_trans (by positivity) hc
  have hcount : (weights.length : ℚ) * c ≤ n * c :=
    mul_le_mul_of_nonneg_right (by exact_mod_cast hlength) hpos
  have hlimit : (weights.length : ℚ) * c < limit * ratio ^ weights.length := calc
    (weights.length : ℚ) * c ≤ n * c := hcount
    _ < limit * ratio ^ n := hfit
    _ ≤ limit * ratio ^ weights.length :=
      mul_le_mul_of_nonneg_left (ratio_pow_anti hlength) limit_pos.le
  have hstart : (0 : ℚ) * ratio ^ 0 ≤ (0 : ℕ) * c := by rw [zero_mul, Nat.cast_zero, zero_mul]
  obtain ⟨w, hw, hbound, -, hsummands⟩ := exists_foldl_add hc hweights hasValue_zero hstart
    (by rwa [Nat.zero_add])
  rw [Nat.zero_add] at hbound
  refine ⟨w, hw, (le_div_iff₀ (pow_pos ratio_pos _)).mpr ?_, hsummands⟩
  exact (mul_le_mul_of_nonneg_left (ratio_pow_anti hlength) hw.nonneg).trans (hbound.trans hcount)

namespace Distribution

/-- All weights of the distribution have values up to a bound. -/
def Bounded (d : Distribution Float) (b : ℚ) : Prop :=
  ∀ e ∈ d.entries, ∃ v, HasValue e.2 v ∧ v ≤ b

/-- No weight of the sum of two distributions is below a product that is added up to it. -/
def Covers (d e : Distribution Float) : Prop :=
  ∀ o, ∀ y ∈ productsAt d e o, ∀ u w, HasValue y u → HasValue ((d.convolve e).weightOf o) w → u ≤ w

/-! ### One die -/

section Faces

variable {faces : ℕ} (hf : 1 ≤ faces) (hlt : faces < 2 ^ 53)

include hf in
theorem share_le_one : 1 / (faces : ℚ) ≤ 1 := by
  have hf' : (1 : ℚ) ≤ faces := by exact_mod_cast hf
  exact (div_le_one (by linarith)).mpr hf'

include hf hlt

/-- The share of a face is far from zero. -/
theorem least_le_share : (1 : ℚ) / 2 ^ 1022 ≤ 1 / faces := by
  have hf' : (1 : ℚ) ≤ faces := by exact_mod_cast hf
  have hlt' : (faces : ℚ) ≤ 2 ^ 53 := by exact_mod_cast hlt.le
  calc
    (1 : ℚ) / 2 ^ 1022 ≤ 1 / 2 ^ 53 :=
      one_div_le_one_div_of_le (by positivity) (pow_le_pow_right₀ one_le_two (by decide))
    _ ≤ 1 / faces := one_div_le_one_div_of_le (by linarith) hlt'

/-- The weight of a face is its share of the whole, rounded. -/
theorem exists_faceWeight :
    ∃ v, HasValue (faceWeight faces : Float) v ∧ RoundsTo (1 / faces) v ∧
      v ≤ 1 / faces / ratio := by
  have hone : HasValue (Weight.ofInt 1 : Float) 1 := by
    have h := hasValue_ofNat_of_lt (by decide : 1 < 2 ^ 53)
    rwa [Nat.cast_one] at h
  have hfaces : HasValue (Weight.ofInt faces : Float) faces := hasValue_ofNat_of_lt hlt
  have hlimit : 1 / (faces : ℚ) < limit := (share_le_one hf).trans_lt one_lt_limit
  obtain ⟨v, hv, hround⟩ := hone.div hfaces (by exact_mod_cast hf) hlimit
  exact ⟨v, hv, hround, (le_div_iff₀ ratio_pos).mpr
    (hround.mul_ratio_le le_rfl (least_le_share hf hlt))⟩

/-- The weights of one die are up to its share, but for one rounding. -/
theorem bounded_uniform : (uniform faces : Distribution Float).Bounded (1 / faces / ratio) := by
  obtain ⟨v, hv, -, hbound⟩ := exists_faceWeight hf hlt
  intro e he
  obtain ⟨face, -, rfl⟩ := List.mem_map.mp he
  exact ⟨v, hv, hbound⟩

end Faces

/-! ### Several dice -/

/-- The products that are added up when a die is added. -/
theorem Bounded.exists_of_mem_productsAt {d e : Distribution Float} {b c : ℚ} (hd : d.Bounded b)
    (he : e.Bounded c) (hb : 0 ≤ b) (hleast : 1 / 2 ^ 1022 ≤ b * c) (hfit : b * c < limit)
    {o : Int} {x : Float} (hx : x ∈ productsAt d e o) :
    ∃ v, HasValue x v ∧ v ≤ b * c / ratio := by
  obtain ⟨k, hk, rfl⟩ := List.mem_map.mp hx
  obtain ⟨hk, hrest⟩ := List.mem_filter.mp hk
  obtain ⟨u, hu, hub⟩ := hd _ (weightOf_mem_entries hk)
  obtain ⟨v, hv, hvc⟩ := he _ (weightOf_mem_entries (of_decide_eq_true hrest))
  have hproduct : u * v ≤ b * c := mul_le_mul hub hvc hv.nonneg hb
  obtain ⟨w, hw, hround⟩ := hu.mul hv (hproduct.trans_lt hfit)
  exact ⟨w, hw, (le_div_iff₀ ratio_pos).mpr (hround.mul_ratio_le hproduct hleast)⟩

/-- Each weight of a sum is added up over as many products as the second distribution has outcomes,
    at most. -/
theorem Bounded.convolve {d e : Distribution Float} {b c : ℚ} (hd : d.Bounded b) (he : e.Bounded c)
    (hb : 0 ≤ b) (hleast : 1 / 2 ^ 1022 ≤ b * c) (hproduct : b * c < limit)
    (hfit : e.size * (b * c / ratio) < limit * ratio ^ e.size) :
    (d.convolve e).Bounded (e.size * (b * c / ratio) / ratio ^ e.size) ∧ d.Covers e := by
  have hleast' : 1 / 2 ^ 1022 ≤ b * c / ratio :=
    hleast.trans (le_div_self (le_trans (by positivity) hleast) ratio_pos ratio_le_one)
  have hsum : ∀ o, ∃ w, HasValue ((d.convolve e).weightOf o) w ∧
      w ≤ e.size * (b * c / ratio) / ratio ^ e.size ∧
      ∀ y ∈ productsAt d e o, ∀ u, HasValue y u → u ≤ w := by
    intro o
    rw [weightOf_convolve]
    exact exists_sum_of_length_le hleast' (length_productsAt_le d e o)
      (fun y hy => hd.exists_of_mem_productsAt he hb hleast hproduct hy) hfit
  refine ⟨fun x hx => ?_, fun o y hy u w hu hw => ?_⟩
  · obtain ⟨w, hw, hbound, -⟩ := hsum x.1
    exact ⟨w, weightOf_eq hx ▸ hw, hbound⟩
  · obtain ⟨w', hw', -, hsummands⟩ := hsum o
    exact (hsummands y hy u hu).trans_eq (hw'.value_unique hw)

/-- Adding a die takes as many further roundings as it has faces, and two more. -/
theorem Bounded.convolve_uniform {d : Distribution Float} {b : ℚ} (h : d.Bounded b) (hb : 1 ≤ b)
    {faces : ℕ} (hf : 1 ≤ faces) (hlt : faces < 2 ^ 53) (hfit : b < limit * ratio ^ (faces + 2)) :
    (d.convolve (uniform faces)).Bounded (b / ratio ^ (faces + 2)) ∧ d.Covers (uniform faces) := by
  have hratio := ratio_pos
  have hb' : 0 ≤ b := zero_le_one.trans hb
  have hf' : (faces : ℚ) ≠ 0 := by exact_mod_cast (by omega : faces ≠ 0)
  have hsize : (uniform faces : Distribution Float).size = faces := by
    simp [size, uniform, faceEntries]
  have hleast : 1 / 2 ^ 1022 ≤ b * (1 / faces / ratio) := calc
    (1 : ℚ) / 2 ^ 1022 ≤ 1 / faces := least_le_share hf hlt
    _ ≤ 1 / faces / ratio := le_div_self (by positivity) ratio_pos ratio_le_one
    _ ≤ b * (1 / faces / ratio) := le_mul_of_one_le_left (by positivity) hb
  have hproduct : b * (1 / faces / ratio) < limit := by
    rw [mul_div_assoc', div_lt_iff₀ ratio_pos]
    calc
      b * (1 / faces) ≤ b := mul_le_of_le_one_right hb' (share_le_one hf)
      _ < limit * ratio ^ (faces + 2) := hfit
      _ ≤ limit * ratio ^ 1 := mul_le_mul_of_nonneg_left (ratio_pow_anti (by omega)) limit_pos.le
      _ = limit * ratio := by rw [pow_one]
  -- All faces together weigh as much as the bound, after the roundings of one product.
  have hall : (faces : ℚ) * (b * (1 / faces / ratio) / ratio) = b / ratio ^ 2 := by field_simp
  have hfit' : b / ratio ^ 2 < limit * ratio ^ faces := by
    rwa [div_lt_iff₀ (pow_pos ratio_pos 2), mul_assoc, ← pow_add]
  have hbounded := h.convolve (bounded_uniform hf hlt) hb' hleast hproduct
    (by rwa [hsize, hall])
  rwa [hsize, hall, div_div, ← pow_add, Nat.add_comm] at hbounded

/-- A bound may be replaced by a greater one. -/
theorem Bounded.mono {d : Distribution Float} {b c : ℚ} (h : d.Bounded b) (hbc : b ≤ c) :
    d.Bounded c := by
  intro e he
  obtain ⟨v, hv, hvb⟩ := h e he
  exact ⟨v, hv, hvb.trans hbc⟩

/-- An offset leaves the weights alone. -/
theorem Bounded.shift {d : Distribution Float} {b : ℚ} (h : d.Bounded b) (offset : Int) :
    (d.shift offset).Bounded b := by
  intro e he
  obtain ⟨e', he', rfl⟩ := List.mem_map.mp he
  exact h e' he'

end Distribution

/-! ### Pools -/

/-- The roundings of as many operations as there are words in half of the memory. -/
theorem le_ratio_pow {k : ℕ} (h : k ≤ 2 ^ 61) : (1 : ℚ) / 2 ^ 512 ≤ ratio ^ k := by
  have hhalf : (1 / 2 : ℚ) ≤ ratio ^ (2 ^ 52) := by
    refine le_trans ?_ (one_sub_le_ratio_pow _)
    push_cast
    norm_num
  calc
    (1 : ℚ) / 2 ^ 512 = (1 / 2) ^ 512 := (one_div_pow 2 512).symm
    _ ≤ (ratio ^ (2 ^ 52)) ^ 512 := pow_le_pow_left₀ (by norm_num) hhalf 512
    _ = ratio ^ (2 ^ 52 * 512) := (pow_mul ..).symm
    _ ≤ ratio ^ k := ratio_pow_anti h

/-- They do not take one to the greatest float. -/
theorem one_lt_limit_mul {k : ℕ} (h : k ≤ 2 ^ 61) : 1 < limit * ratio ^ k := by
  refine lt_of_lt_of_le ?_ (mul_le_mul_of_nonneg_left (le_ratio_pow h) limit_pos.le)
  rw [mul_one_div, one_lt_div (by positivity)]
  exact pow_lt_limit (by decide)

namespace Pool

open Dice.Distribution

/-- Each further die takes as many further roundings, and no weight is below its products. -/
theorem bounded_sumOfDice {faces : ℕ} (hf : 1 ≤ faces) (hlt : faces < 2 ^ 53) {count : ℕ}
    (hfit : 1 < limit * ratio ^ ((count + 1) * (faces + 2))) :
    (sumOfDice faces (count + 1) : Distribution Float).Bounded
      (1 / ratio ^ ((count + 1) * (faces + 2))) ∧
    ∀ k < count, (sumOfDice faces (k + 1) : Distribution Float).Covers (uniform faces) := by
  -- One step is one convolution; the bound before it is at least one, as the step needs it.
  induction count with
  | zero =>
    rw [sumOfDice_one]
    refine ⟨(bounded_uniform hf hlt).mono ?_, fun k hk => absurd hk k.not_lt_zero⟩
    calc
      1 / (faces : ℚ) / ratio ≤ 1 / ratio :=
        div_le_div_of_nonneg_right (share_le_one hf) ratio_pos.le
      _ ≤ 1 / ratio ^ ((0 + 1) * (faces + 2)) := by
        refine one_div_le_one_div_of_le (pow_pos ratio_pos _) ?_
        exact (ratio_pow_anti (by omega)).trans_eq (pow_one ratio)
  | succ count ih =>
    have hsplit : (count + 1 + 1) * (faces + 2) = (count + 1) * (faces + 2) + (faces + 2) := by ring
    rw [hsplit] at hfit ⊢
    have hpow := pow_pos ratio_pos ((count + 1) * (faces + 2))
    have hone : 1 ≤ 1 / ratio ^ ((count + 1) * (faces + 2)) :=
      (one_le_div hpow).mpr (ratio_pow_le_one _)
    have hfit' : 1 / ratio ^ ((count + 1) * (faces + 2)) < limit * ratio ^ (faces + 2) := by
      rw [div_lt_iff₀ hpow, mul_assoc, ← pow_add, Nat.add_comm]
      exact hfit
    have hless : 1 < limit * ratio ^ ((count + 1) * (faces + 2)) := hfit.trans_le
      (mul_le_mul_of_nonneg_left (ratio_pow_anti (Nat.le_add_right _ _)) limit_pos.le)
    obtain ⟨hbounded, hcovers⟩ := ih hless
    obtain ⟨hbounded', hcovers'⟩ := hbounded.convolve_uniform hone hf hlt hfit'
    rw [sumOfDice_succ, pow_add, ← div_div]
    refine ⟨hbounded', fun k hk => ?_⟩
    rcases Nat.lt_succ_iff_lt_or_eq.mp hk with hk | rfl
    · exact hcovers k hk
    · exact hcovers'

/-- The weights of a pool's totals are far from the greatest float, as long as the outcomes and their
    weights, of 64 bits each, fit in the memory of a machine with words of 64 bits. -/
theorem bounded_totals {p : Pool} (hc : 1 ≤ p.count.toNat) (hf : 1 ≤ p.faces.toNat)
    (hmemory : 16 * (p.totals : Distribution Float).size < UInt64.size) :
    (p.totals : Distribution Float).Bounded (2 ^ 512) := by
  have hsize : (p.totals : Distribution Float).size = p.count.toNat * (p.faces.toNat - 1) + 1 :=
    (outcomes_law_eq_range p hc hf).2.2.2
  rw [hsize, show UInt64.size = 2 ^ 64 from rfl] at hmemory
  have hcount : p.count.toNat < 2 ^ 32 := p.count.toNat_lt
  have hfaces : p.faces.toNat < 2 ^ 32 := p.faces.toNat_lt
  obtain ⟨count, hsucc⟩ := Nat.exists_eq_add_of_le' hc
  -- Dice with few faces are limited by their number, others by the number of outcomes.
  have hsteps : p.count.toNat * (p.faces.toNat + 2) ≤ 2 ^ 61 := by
    rcases le_or_gt p.faces.toNat 4 with hfew | hmany
    · calc
        p.count.toNat * (p.faces.toNat + 2) ≤ 2 ^ 32 * 6 := Nat.mul_le_mul hcount.le (by omega)
        _ ≤ 2 ^ 61 := by decide
    · calc
        p.count.toNat * (p.faces.toNat + 2) ≤ p.count.toNat * (2 * (p.faces.toNat - 1)) :=
          Nat.mul_le_mul_left _ (by omega)
        _ = 2 * (p.count.toNat * (p.faces.toNat - 1)) := by ring
        _ ≤ 2 ^ 61 := by omega
  have hratio := le_ratio_pow hsteps
  have hfit := one_lt_limit_mul hsteps
  rw [totals]
  rw [hsucc] at hratio hfit ⊢
  obtain ⟨hbounded, -⟩ := bounded_sumOfDice hf (hfaces.trans (by decide)) hfit
  refine (hbounded.mono ?_).shift p.offset.toInt
  rw [div_le_iff₀ (pow_pos ratio_pos _), ← div_le_iff₀' (by positivity)]
  exact hratio

end Pool

end Dice
