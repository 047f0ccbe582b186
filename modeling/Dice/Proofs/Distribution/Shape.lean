import Dice.Proofs.Distribution.Addition
import Dice.Proofs.Distribution.Counting
import Dice.Proofs.Distribution.Leading

namespace Dice

open scoped BigOperators

/-!
# The shape of a law

With exact weights the law of a pool is symmetric and rises up to its middle.  A die that is added
takes the mean of as many neighbouring weights as it has faces.  From one outcome to the next this
mean gains a weight and loses one, and up to the new middle the weight that it gains is nearer to
the old one.

* `Distribution.Peaked`, `Distribution.Peaked.convolve_uniform` — symmetric and rising, and so with a
  die more.
* `Distribution.ClimbsFrom`, `Distribution.ClimbsFrom.lt` — rising with every outcome, as the sums
  of two dice do, and of more dice after them.
* `Distribution.Leads` — the outcome that is the most likely one.
* `Pool.shape_of_law` — the symmetry and the rise of a law, its most likely total and its highest
  weight.
-/

namespace Distribution

/-! ### One more die -/

/-- A die that is added takes the mean of the weights below an outcome. -/
theorem weightOf_convolve_uniform (d : Distribution Rat) (faces : Nat) (o : Int) :
    (d.convolve (uniform faces)).weightOf o =
      (∑ face ∈ Finset.Icc 1 faces, d.weightOf (o - face)) / faces := by
  have hindicator : ∀ x face : Int,
      (if face + x = o then 1 else 0 : Rat) = if x = o - face then 1 else 0 := fun x face =>
    if_congr (by omega) rfl rfl
  rw [convolve_comm, weightOf_eq_expect, expect_convolve, expect_uniform]
  simp only [hindicator, weightOf_eq_expect]

/-- From one outcome to the next the mean gains the weight of the first and loses that of the
    outcome as far before it as the die has faces. -/
theorem weightOf_convolve_uniform_succ (d : Distribution Rat) (faces : Nat) (o : Int) :
    (d.convolve (uniform faces)).weightOf (o + 1) = (d.convolve (uniform faces)).weightOf o +
      (d.weightOf o - d.weightOf (o - faces)) / faces := by
  have hsum : ∑ face ∈ Finset.Icc 1 faces, d.weightOf (o + 1 - face) =
      (∑ face ∈ Finset.Icc 1 faces, d.weightOf (o - face)) +
        (d.weightOf o - d.weightOf (o - faces)) := by
    induction faces with
    | zero => simp
    | succ faces ih =>
      have hnext : o + 1 - ((faces + 1 : Nat) : Int) = o - faces := by push_cast; omega
      rw [Finset.sum_Icc_succ_top (by omega), Finset.sum_Icc_succ_top (by omega), ih, hnext]
      ring
  rw [weightOf_convolve_uniform, weightOf_convolve_uniform, hsum, add_div]

/-! ### Symmetric and rising -/

/-- The weights rise up to the middle, and fall behind it as they rose.  The middle is half of
    `ends`, which is the sum of the least and the greatest outcome. -/
structure Peaked (d : Distribution Rat) (ends : Int) : Prop where
  /-- Outcomes that are equally far from the middle have the same weight. -/
  mirror : ∀ o, d.weightOf (ends - o) = d.weightOf o
  /-- The weights do not fall before the middle. -/
  rise : ∀ o, 2 * o < ends → d.weightOf o ≤ d.weightOf (o + 1)

namespace Peaked

variable {d : Distribution Rat} {ends : Int}

/-- Up to the middle a later outcome weighs no less. -/
theorem le_of_le_middle (h : d.Peaked ends) {s t : Int} (hst : s ≤ t) (ht : 2 * t ≤ ends) :
    d.weightOf s ≤ d.weightOf t := by
  induction t, hst using Int.leInduction with
  | base => exact le_rfl
  | succ t hst ih => exact (ih (by omega)).trans (h.rise t (by omega))

/-- An outcome that is no farther from the middle weighs no less. -/
theorem le (h : d.Peaked ends) {s t : Int} (hst : s ≤ t) (hsum : s + t ≤ ends) :
    d.weightOf s ≤ d.weightOf t := by
  rcases le_or_gt (2 * t) ends with ht | ht
  · exact h.le_of_le_middle hst ht
  · rw [← h.mirror t]
    exact h.le_of_le_middle (by omega) (by omega)

/-- An offset moves both ends, and the middle with them. -/
theorem shift (h : d.Peaked ends) (offset : Int) : (d.shift offset).Peaked (ends + 2 * offset) := by
  refine ⟨fun o => ?_, fun o ho => ?_⟩
  · rw [weightOf_shift, weightOf_shift, ← h.mirror (o - offset)]
    congr 1
    omega
  · rw [weightOf_shift, weightOf_shift, ← sub_add_eq_add_sub]
    exact h.rise (o - offset) (by omega)

/-- Adding a die keeps the shape. -/
theorem convolve_uniform (h : d.Peaked ends) (faces : Nat) :
    (d.convolve (uniform faces)).Peaked (ends + (faces + 1)) := by
  refine ⟨fun o => ?_, fun o ho => ?_⟩
  · -- The faces of the new die are taken in the opposite order.
    rw [weightOf_convolve_uniform, weightOf_convolve_uniform]
    congr 1
    refine Finset.sum_nbij' (fun face => faces + 1 - face) (fun face => faces + 1 - face)
      ?_ ?_ ?_ ?_ ?_ <;> simp only [Finset.mem_Icc]
    · omega
    · omega
    · omega
    · omega
    · intro face hface
      rw [← h.mirror]
      congr 1
      omega
  · rw [weightOf_convolve_uniform_succ]
    have hstep : d.weightOf (o - faces) ≤ d.weightOf o := h.le (by omega) (by omega)
    have hgain : 0 ≤ (d.weightOf o - d.weightOf (o - faces)) / faces :=
      div_nonneg (sub_nonneg.mpr hstep) (Nat.cast_nonneg faces)
    exact le_add_of_nonneg_right hgain

end Peaked

/-- With exact weights every face of a die has its share, and nothing else happens. -/
theorem weightOf_uniform_rat (faces : Nat) (o : Int) :
    (uniform faces : Distribution Rat).weightOf o =
      if 1 ≤ o ∧ o ≤ faces then 1 / (faces : Rat) else 0 := by
  split
  · next ho => rw [weightOf_uniform (mem_outcomes_uniform.mpr ho), faceWeight_rat]
  · next ho => exact weightOf_of_not_mem (mt mem_outcomes_uniform.mp ho)

/-- A single die is as high everywhere. -/
theorem peaked_uniform (faces : Nat) : (uniform faces : Distribution Rat).Peaked (faces + 1) := by
  have hshare : (0 : Rat) ≤ 1 / faces := by positivity
  refine ⟨fun o => ?_, fun o ho => ?_⟩
  · rw [weightOf_uniform_rat, weightOf_uniform_rat]
    exact if_congr (by omega) rfl rfl
  · rw [weightOf_uniform_rat, weightOf_uniform_rat]
    by_cases hface : 1 ≤ o ∧ o ≤ faces
    · rw [if_pos hface, if_pos (by omega)]
    · rw [if_neg hface]
      split
      · exact hshare
      · exact le_rfl

/-! ### Strictly rising -/

/-- From the outcome before `first` on, the weights rise with each outcome up to the middle. -/
def ClimbsFrom (d : Distribution Rat) (first ends : Int) : Prop :=
  ∀ o, first ≤ o + 1 → 2 * o + 1 < ends → d.weightOf o < d.weightOf (o + 1)

/-- A possible outcome that is nearer to the middle weighs more. -/
theorem ClimbsFrom.lt {d : Distribution Rat} {first ends : Int} (h : d.ClimbsFrom first ends)
    (hpeaked : d.Peaked ends) {s t : Int} (hst : s < t) (hsum : s + t < ends) (hlow : first ≤ t)
    (hhigh : first ≤ ends - t) : d.weightOf s < d.weightOf t := by
  -- Of the two outcomes with the greater weight, the one up to the middle is reached by a climb.
  have hbelow : ∀ k, s < k → 2 * k ≤ ends → first ≤ k → d.weightOf s < d.weightOf k := by
    intro k hsk hk hfirst
    have hclimb := h (k - 1) (by omega) (by omega)
    rw [Int.sub_add_cancel] at hclimb
    exact (hpeaked.le (by omega) (by omega)).trans_lt hclimb
  rcases le_or_gt (2 * t) ends with ht | ht
  · exact hbelow t hst ht hlow
  · rw [← hpeaked.mirror t]
    exact hbelow (ends - t) (by omega) (by omega) hhigh

/-- An offset moves the outcome from which the weights rise. -/
theorem ClimbsFrom.shift {d : Distribution Rat} {first ends : Int} (h : d.ClimbsFrom first ends)
    (offset : Int) : (d.shift offset).ClimbsFrom (first + offset) (ends + 2 * offset) := by
  intro o hfirst hmiddle
  rw [weightOf_shift, weightOf_shift, ← sub_add_eq_add_sub]
  exact h (o - offset) (by omega) (by omega)

/-- The mean rises where the weight that it gains is above the one that it loses. -/
theorem lt_convolve_uniform {d : Distribution Rat} {faces : Nat} (hf : 1 ≤ faces) {o : Int}
    (h : d.weightOf (o - faces) < d.weightOf o) :
    (d.convolve (uniform faces)).weightOf o < (d.convolve (uniform faces)).weightOf (o + 1) := by
  have hgain : 0 < (d.weightOf o - d.weightOf (o - faces)) / faces :=
    div_pos (sub_pos.mpr h) (Nat.cast_pos.mpr hf)
  rw [weightOf_convolve_uniform_succ]
  exact lt_add_of_pos_right _ hgain

/-! ### The outcome that leads -/

/-- An outcome that can happen, weighs more than all before it and no less than all after it. -/
structure Leads (d : Distribution Rat) (o : Int) : Prop where
  /-- The outcome is listed. -/
  mem : o ∈ d.outcomes
  /-- The outcome has some weight. -/
  pos : 0 < d.weightOf o
  /-- Lesser outcomes have less weight. -/
  lt : ∀ k ∈ d.outcomes, k < o → d.weightOf k < d.weightOf o
  /-- Greater outcomes have no more weight. -/
  le : ∀ k ∈ d.outcomes, o < k → d.weightOf k ≤ d.weightOf o

/-- The outcome that leads is the one found. -/
theorem Leads.mostLikely_eq {d : Distribution Rat} {o : Int} (h : d.Leads o) :
    d.mostLikely = some o :=
  mostLikely_eq_some h.mem (fun k hk hlt => not_le.mpr (h.lt k hk hlt)) h.le

/-- The highest weight is that of the outcome that leads. -/
theorem Leads.highest_eq {d : Distribution Rat} {o : Int} (h : d.Leads o) :
    d.highest = d.weightOf o :=
  highest_eq_weightOf h.mem h.pos h.lt fun k hk hlt => not_lt.mpr (h.le k hk hlt)

end Distribution

namespace Pool

open Dice.Distribution

/-- The weights of some dice rise up to the middle and fall behind it as they rose, for every
    further die keeps them doing so. -/
theorem peaked_sumOfDice (faces count : Nat) :
    (sumOfDice faces (count + 1)).Peaked ((count + 1 : Nat) * (faces + 1)) := by
  induction count with
  | zero => simpa using peaked_uniform faces
  | succ count ih =>
    have hends : ((count + 2 : Nat) : Int) * (faces + 1) =
        (count + 1 : Nat) * (faces + 1) + (faces + 1) := by
      push_cast
      ring
    rw [sumOfDice_succ, hends]
    exact ih.convolve_uniform faces

/-- The weights of two dice or more rise with every outcome from the least one up to the middle. -/
theorem climbsFrom_sumOfDice {faces : Nat} (hf : 1 ≤ faces) (count : Nat) :
    (sumOfDice faces (count + 2)).ClimbsFrom (count + 2 : Nat) ((count + 2 : Nat) * (faces + 1)) := by
  induction count with
  | zero =>
    -- The weight gained is that of a face of the first die, and the one lost is nothing.
    intro o hfirst hmiddle
    have hshare : (0 : Rat) < 1 / faces := by positivity
    rw [sumOfDice_succ]
    refine lt_convolve_uniform hf ?_
    rw [sumOfDice_one, weightOf_uniform_rat, weightOf_uniform_rat, if_neg (by omega),
      if_pos (by omega)]
    exact hshare
  | succ count ih =>
    intro o hfirst hmiddle
    have hpeaked := peaked_sumOfDice faces (count + 1)
    -- The ends differ by those of one die, and more dice have more faces beyond their first.
    have hends : ((count + 1 + 2 : Nat) : Int) * (faces + 1) =
        (count + 2 : Nat) * (faces + 1) + (faces + 1) := by
      push_cast
      ring
    have hends' : ((count + 2 : Nat) : Int) * (faces + 1) =
        count * faces + 2 * faces + (count + 2) := by
      push_cast
      ring
    have hcount : (count : Int) ≤ count * faces := le_mul_of_one_le_right (by omega) (by omega)
    rw [sumOfDice_succ]
    exact lt_convolve_uniform hf (ih.lt hpeaked (by omega) (by omega) (by omega) (by omega))

/-- The sum of the bounds of a pool. -/
theorem lowest_add_highest (p : Pool) :
    p.lowest + p.highest = p.count.toNat * (p.faces.toNat + 1) + 2 * p.offset.toInt := by
  rw [lowest, highest]
  ring

/-- The weights of a pool's totals are symmetric about the middle of its bounds, and rise up to it. -/
theorem peaked_totals {p : Pool} (hc : 1 ≤ p.count.toNat) :
    (p.totals : Distribution Rat).Peaked (p.lowest + p.highest) := by
  obtain ⟨count, hcount⟩ := Nat.exists_eq_add_of_le' hc
  rw [totals, lowest_add_highest, hcount]
  exact (peaked_sumOfDice _ count).shift _

/-- The weights of the totals of several dice rise with every total up to the middle. -/
theorem climbsFrom_totals {p : Pool} (hc : 2 ≤ p.count.toNat) (hf : 1 ≤ p.faces.toNat) :
    (p.totals : Distribution Rat).ClimbsFrom p.lowest (p.lowest + p.highest) := by
  obtain ⟨count, hcount⟩ := Nat.exists_eq_add_of_le' hc
  rw [totals, lowest_add_highest, lowest, hcount]
  exact (climbsFrom_sumOfDice hf count).shift _

/-- All totals of a single die have the same weight, and the least one leads. -/
theorem leads_lowest {p : Pool} (hc : p.count.toNat = 1) (hf : 1 ≤ p.faces.toNat) :
    (p.totals : Distribution Rat).Leads p.lowest := by
  have houtcomes := fun k : Int => mem_outcomes_totals (W := Rat) hc.ge hf (o := k)
  have hends := highest_eq_lowest_add hf
  have hmem : p.lowest ∈ (p.totals : Distribution Rat).outcomes := (houtcomes _).mpr (by omega)
  have hweight : ∀ k ∈ (p.totals : Distribution Rat).outcomes,
      (p.totals : Distribution Rat).weightOf k = 1 / p.faces.toNat := by
    intro k hk
    rw [totals, hc, sumOfDice_one, mem_outcomes_shift] at hk
    rw [totals, hc, sumOfDice_one, weightOf_shift, weightOf_uniform hk, faceWeight_rat]
  refine ⟨hmem, weightOf_totals_pos hc.ge hf hmem, fun k hk hlt => ?_, fun k hk _ => ?_⟩
  · have hlow := ((houtcomes k).mp hk).1
    omega
  · rw [hweight k hk, hweight _ hmem]

/-- The middle total of several dice, the lesser of two, weighs more than all before it. -/
theorem leads_middle {p : Pool} (hc : 2 ≤ p.count.toNat) (hf : 1 ≤ p.faces.toNat) :
    (p.totals : Distribution Rat).Leads ((p.lowest + p.highest) / 2) := by
  have hone : 1 ≤ p.count.toNat := by omega
  have houtcomes := fun k : Int => mem_outcomes_totals (W := Rat) hone hf (o := k)
  have hends := highest_eq_lowest_add hf
  have hpeaked := peaked_totals hone
  have hmem : (p.lowest + p.highest) / 2 ∈ (p.totals : Distribution Rat).outcomes :=
    (houtcomes _).mpr (by omega)
  refine ⟨hmem, weightOf_totals_pos hone hf hmem, fun k _ hlt => ?_, fun k _ hlt => ?_⟩
  · exact (climbsFrom_totals hc hf).lt hpeaked hlt (by omega) (by omega) (by omega)
  · rw [← hpeaked.mirror k]
    exact hpeaked.le (by omega) (by omega)

/-- With exact weights the law of a pool with dice and faces is symmetric, and its weights do not
    fall before the middle of its bounds.  The most likely total is the lowest for a single die, and
    the middle one, rounded down, for several dice; its weight is the highest. -/
theorem shape_of_law (p : Pool) (hc : 1 ≤ p.count.toNat) (hf : 1 ≤ p.faces.toNat) :
    (∀ k : Int, (p.law : Law Rat).distribution.weightOf ((p.law : Law Rat).lowest + k) =
      (p.law : Law Rat).distribution.weightOf ((p.law : Law Rat).highest - k)) ∧
    (∀ s t : Int, s ≤ t → t ≤ ((p.law : Law Rat).lowest + (p.law : Law Rat).highest) / 2 →
      (p.law : Law Rat).distribution.weightOf s ≤ (p.law : Law Rat).distribution.weightOf t) ∧
    (p.law : Law Rat).distribution.mostLikely =
      some (if p.count.toNat = 1 then (p.law : Law Rat).lowest
        else ((p.law : Law Rat).lowest + (p.law : Law Rat).highest) / 2) ∧
    (p.law : Law Rat).distribution.mostLikely.map (p.law : Law Rat).distribution.weightOf =
      some (p.law : Law Rat).distribution.highest := by
  have hpeaked := peaked_totals hc
  have hleads : (p.totals : Distribution Rat).Leads
      (if p.count.toNat = 1 then p.lowest else (p.lowest + p.highest) / 2) := by
    split
    · next hone => exact leads_lowest hone hf
    · next hone => exact leads_middle (by omega) hf
  refine ⟨fun k => ?_, fun s t hst ht => ?_, hleads.mostLikely_eq, ?_⟩
  · have hmirror := hpeaked.mirror (p.lowest + k)
    rw [add_sub_add_left_eq_sub] at hmirror
    exact hmirror.symm
  · have hmiddle : t ≤ (p.lowest + p.highest) / 2 := ht
    exact hpeaked.le_of_le_middle hst (by omega)
  · calc
      (p.totals : Distribution Rat).mostLikely.map p.totals.weightOf =
          some (p.totals.weightOf _) := congrArg (Option.map _) hleads.mostLikely_eq
      _ = some (p.totals : Distribution Rat).highest := congrArg some hleads.highest_eq.symm

/-- Three dice of four faces, less three, have totals from zero to nine.  Four and five are equally
    likely, and four is the most likely total. -/
theorem shape_of_law_threeDice :
    1 ≤ (⟨3, .standard, 4, -3⟩ : Pool).count.toNat ∧ 1 ≤ (⟨3, .standard, 4, -3⟩ : Pool).faces.toNat ∧
      (law ⟨3, .standard, 4, -3⟩ : Law Rat).distribution.weightOf 4 =
        (law ⟨3, .standard, 4, -3⟩ : Law Rat).distribution.weightOf 5 ∧
      (law ⟨3, .standard, 4, -3⟩ : Law Rat).distribution.mostLikely = some 4 := by
  obtain ⟨hmirror, -, hmost, -⟩ := shape_of_law ⟨3, .standard, 4, -3⟩ (by decide) (by decide)
  exact ⟨by decide, by decide, hmirror 4, hmost⟩

end Pool

end Dice
