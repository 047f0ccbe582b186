import Dice.Proofs.Distribution.Expectation
import Mathlib.Algebra.BigOperators.Fin
import Mathlib.Algebra.Order.Field.Basic
import Mathlib.Data.Fin.Tuple.Finset
import Mathlib.Data.Fintype.BigOperators
import Mathlib.Data.Rat.BigOperators

namespace Dice

open scoped BigOperators

/-!
# The law of a pool counts face sequences

With exact weights, the law of a pool gives every total its share of the sequences of faces that
the dice can show, one face for each die.

* `faceSequences` — the sequences of faces of several equal dice.
* `Pool.ways` — how many of them have a given total with the offset.
* `Pool.expect_totals` — an expectation over the totals is a mean over all sequences.
* `Pool.weightOf_law_eq_ways_div` — the probability of a total.
-/

/-! ### Face sequences -/

/-- The sequences that give each of several dice one of its faces. -/
def faceSequences (faces count : Nat) : Finset (Fin count → Nat) :=
  Fintype.piFinset fun _ => Finset.Icc 1 faces

/-- Every die has all its faces, whatever the others show. -/
theorem card_faceSequences (faces count : Nat) :
    (faceSequences faces count).card = faces ^ count := by
  simp [faceSequences, Fintype.card_piFinset]

/-- The sequences of one more die have a face for it and a sequence for the others. -/
theorem sum_faceSequences_succ {M : Type} [AddCommMonoid M] (faces count : Nat)
    (F : (Fin (count + 1) → Nat) → M) :
    ∑ g ∈ faceSequences faces (count + 1), F g =
      ∑ face ∈ Finset.Icc 1 faces, ∑ g ∈ faceSequences faces count, F (Fin.cons face g) := by
  rw [← Finset.sum_product']
  -- A sequence goes to its first face and its tail, and comes back from the two.
  refine Finset.sum_nbij' (fun g => (g 0, Fin.tail g)) (fun p => Fin.cons p.1 p.2) ?_ ?_ ?_ ?_ ?_
  · intro g hg
    rw [Finset.mem_product]
    exact Fin.mem_piFinset_iff_zero_tail.mp hg
  · intro p hp
    rw [Finset.mem_product] at hp
    refine Fin.mem_piFinset_iff_zero_tail.mpr ?_
    rw [Fin.cons_zero, Fin.tail_cons]
    exact hp
  · exact fun g _ => Fin.cons_self_tail g
  · intro p _
    rw [Fin.cons_zero, Fin.tail_cons]
  · intro g _
    rw [Fin.cons_self_tail]

/-- The total of one more die is its face and the total of the others. -/
theorem sum_cons {count : Nat} (face : Nat) (g : Fin count → Nat) :
    ∑ i, ((Fin.cons face g : Fin (count + 1) → Nat) i : Int) = (∑ i, (g i : Int)) + face := by
  rw [Fin.sum_univ_succ, Fin.cons_zero, add_comm]
  simp only [Fin.cons_succ]

/-- All numbers from one for each die to the greatest for each are sums of faces. -/
theorem exists_faceSequence {faces : Nat} (hf : 1 ≤ faces) (count s : Nat) (hlow : count ≤ s)
    (hhigh : s ≤ count * faces) : ∃ g ∈ faceSequences faces count, ∑ i, g i = s := by
  induction count generalizing s with
  | zero =>
    refine ⟨Fin.elim0, Fintype.mem_piFinset.mpr fun i => i.elim0, ?_⟩
    rw [Fin.sum_univ_zero]
    omega
  | succ count ih =>
    -- The first die takes what the others cannot show, and at least one.
    have hcount : count ≤ count * faces := Nat.le_mul_of_pos_right count hf
    rw [Nat.add_one_mul] at hhigh
    let face := max 1 (s - count * faces)
    obtain ⟨g, hg, hsum⟩ := ih (s - face) (by omega) (by omega)
    refine ⟨Fin.cons face g, Fin.mem_piFinset_iff_zero_tail.mpr ⟨?_, hg⟩, ?_⟩
    · rw [Fin.cons_zero, Finset.mem_Icc]
      omega
    · rw [Fin.sum_univ_succ, Fin.cons_zero]
      simp only [Fin.cons_succ, hsum]
      omega

namespace Pool

/-- An expectation over the sum of some dice is the mean over their face sequences. -/
theorem expect_sumOfDice (faces count : Nat) (f : Int → Rat) :
    (sumOfDice faces (count + 1)).expect f =
      (∑ g ∈ faceSequences faces (count + 1), f (∑ i, (g i : Int))) /
        (faces : Rat) ^ (count + 1) := by
  -- The convolution fixes what the new die shows, so the function under the mean changes with it.
  induction count generalizing f with
  | zero =>
    rw [sumOfDice_one, Distribution.expect_uniform, sum_faceSequences_succ]
    simp [faceSequences]
  | succ count ih =>
    rw [sumOfDice_succ, Distribution.expect_convolve, sum_faceSequences_succ]
    simp only [Distribution.expect_uniform, ih, sum_cons]
    -- The mean over the new die is taken first on one side and last on the other.
    rw [← Finset.sum_div, Finset.sum_comm, div_div, ← pow_succ']

/-- The number of face sequences of a pool that have a given total with its offset. -/
def ways (p : Pool) (t : Int) : Nat :=
  {g ∈ faceSequences p.faces.toNat p.count.toNat | (∑ i, (g i : Int)) + p.offset.toInt = t}.card

/-- An expectation over the totals of a pool with dice is the mean over its face sequences. -/
theorem expect_totals {p : Pool} (hc : 1 ≤ p.count.toNat) (f : Int → Rat) :
    p.totals.expect f =
      (∑ g ∈ faceSequences p.faces.toNat p.count.toNat, f ((∑ i, (g i : Int)) + p.offset.toInt)) /
        (p.faces.toNat : Rat) ^ p.count.toNat := by
  obtain ⟨count, hcount⟩ := Nat.exists_eq_add_of_le' hc
  rw [totals, Distribution.expect_shift, hcount, expect_sumOfDice]

/-- The probability of a total is its number of ways among all face sequences. -/
theorem weightOf_totals {p : Pool} (hc : 1 ≤ p.count.toNat) (t : Int) :
    p.totals.weightOf t = (p.ways t : Rat) / (p.faces.toNat : Rat) ^ p.count.toNat := by
  rw [Distribution.weightOf_eq_expect, expect_totals hc, Finset.sum_boole, ways]

/-- No total has more ways than there are face sequences. -/
theorem ways_le (p : Pool) (t : Int) : p.ways t ≤ p.faces.toNat ^ p.count.toNat := by
  rw [← card_faceSequences]
  exact Finset.card_filter_le _ _

/-- Every total that is listed has a face sequence. -/
theorem ways_pos_of_mem_outcomes {W : Type} [Weight W] {p : Pool} (hc : 1 ≤ p.count.toNat)
    (hf : 1 ≤ p.faces.toNat) {t : Int} (h : t ∈ (p.totals : Distribution W).outcomes) :
    0 < p.ways t := by
  rw [mem_outcomes_totals hc hf, lowest, highest] at h
  obtain ⟨s, hs⟩ := Int.eq_ofNat_of_zero_le (a := t - p.offset.toInt) (by omega)
  have hhigh : (s : Int) ≤ p.count.toNat * p.faces.toNat := by omega
  obtain ⟨g, hg, hsum⟩ :=
    exists_faceSequence hf p.count.toNat s (by omega) (by exact_mod_cast hhigh)
  refine Finset.card_pos.mpr ⟨g, Finset.mem_filter.mpr ⟨hg, ?_⟩⟩
  rw [← Nat.cast_sum, hsum]
  omega

/-- Every total that is listed can happen. -/
theorem weightOf_totals_pos {p : Pool} (hc : 1 ≤ p.count.toNat) (hf : 1 ≤ p.faces.toNat) {t : Int}
    (h : t ∈ (p.totals : Distribution Rat).outcomes) : 0 < (p.totals : Distribution Rat).weightOf t := by
  have hways : (0 : Rat) < p.ways t := Nat.cast_pos.mpr (ways_pos_of_mem_outcomes hc hf h)
  rw [weightOf_totals hc]
  positivity

/-- All probabilities of a pool with dice and faces add up to one. -/
theorem total_totals {p : Pool} (hc : 1 ≤ p.count.toNat) (hf : 1 ≤ p.faces.toNat) :
    (p.totals : Distribution Rat).total = 1 := by
  have hpos : (p.faces.toNat : Rat) ^ p.count.toNat ≠ 0 := by positivity
  rw [Distribution.total_eq_expect, expect_totals hc, Finset.sum_const, card_faceSequences,
    nsmul_one, Nat.cast_pow, div_self hpos]

/-- With exact weights, the probability of a total of a pool with dice and faces is the number of
    face sequences with that total, divided by the number of all face sequences.  So it lies between
    zero and one, and all probabilities add up to one. -/
theorem weightOf_law_eq_ways_div (p : Pool) (hc : 1 ≤ p.count.toNat) (hf : 1 ≤ p.faces.toNat) :
    (∀ t : Int, (p.law : Law Rat).distribution.weightOf t =
      (p.ways t : Rat) / (p.faces.toNat : Rat) ^ p.count.toNat) ∧
    (∀ t : Int, 0 ≤ (p.law : Law Rat).distribution.weightOf t ∧
      (p.law : Law Rat).distribution.weightOf t ≤ 1) ∧
    (p.law : Law Rat).distribution.total = 1 := by
  refine ⟨weightOf_totals hc, fun t => ?_, total_totals hc hf⟩
  have hpos : (0 : Rat) < (p.faces.toNat : Rat) ^ p.count.toNat := by positivity
  have hle : (p.ways t : Rat) ≤ (p.faces.toNat : Rat) ^ p.count.toNat := by
    exact_mod_cast p.ways_le t
  show 0 ≤ p.totals.weightOf t ∧ p.totals.weightOf t ≤ 1
  rw [weightOf_totals hc]
  exact ⟨by positivity, (div_le_one hpos).mpr hle⟩

/-- Two dice of four faces, less three, have a total of two in four of their sixteen ways. -/
theorem weightOf_law_twoDice :
    1 ≤ (⟨2, .unique, 4, -3⟩ : Pool).count.toNat ∧ 1 ≤ (⟨2, .unique, 4, -3⟩ : Pool).faces.toNat ∧
      (law ⟨2, .unique, 4, -3⟩ : Law Rat).distribution.weightOf 2 = 4 / 4 ^ 2 := by
  have hways : ways ⟨2, .unique, 4, -3⟩ 2 = 4 := by decide +kernel
  have hweight := (weightOf_law_eq_ways_div ⟨2, .unique, 4, -3⟩ (by decide) (by decide)).1 2
  rw [hways] at hweight
  exact ⟨by decide, by decide, hweight⟩

end Pool

end Dice
