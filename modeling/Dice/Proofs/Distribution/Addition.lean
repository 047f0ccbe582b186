import Dice.Proofs.Distribution.Expectation
import Dice.Proofs.Distribution.Offsets

namespace Dice

/-!
# Independent outcomes are added

With exact weights, adding independent outcomes is as good as adding numbers: it may be done in any
order and with any grouping, and an outcome that is always zero changes nothing.

* `Distribution.certain` — an outcome that always happens.
* `Distribution.convolve_comm`, `Distribution.convolve_assoc`, `Distribution.certain_zero_convolve`
  — sums in another order, in other groups, and with nothing.
* `Distribution.total_convolve` — the weight of everything is multiplied.
* `Pool.sumOfDice_add` — dice may be added in two groups.
* `Distribution.convolve_as_addition` — all of it, for pools too.
-/

namespace Distribution

/-- The distribution in which one outcome always happens. -/
def certain (o : Int) : Distribution Rat where
  entries := [(o, 1)]
  ascending := List.pairwise_singleton _ _

@[simp] theorem mem_outcomes_certain {o k : Int} : k ∈ (certain o).outcomes ↔ k = o := by
  simp [outcomes, certain]

/-- What is certain is expected. -/
@[simp] theorem expect_certain (o : Int) (f : Int → Rat) : (certain o).expect f = f o := by
  simp [expect, certain]

/-- The order in which two outcomes are added makes no difference. -/
theorem convolve_comm (d e : Distribution Rat) : d.convolve e = e.convolve d := by
  refine ext_weightOf (fun o => ?_) fun o => ?_
  · simp only [mem_outcomes_convolve]
    constructor
    · rintro ⟨x, hx, y, hy, rfl⟩
      exact ⟨y, hy, x, hx, Int.add_comm y x⟩
    · rintro ⟨y, hy, x, hx, rfl⟩
      exact ⟨x, hx, y, hy, Int.add_comm x y⟩
  · rw [weightOf_eq_expect, weightOf_eq_expect, expect_convolve, expect_convolve, expect_comm]
    simp only [Int.add_comm]

/-- The grouping in which three outcomes are added makes no difference. -/
theorem convolve_assoc (d e f : Distribution Rat) :
    (d.convolve e).convolve f = d.convolve (e.convolve f) := by
  refine ext_weightOf (fun o => ?_) fun o => ?_
  · simp only [mem_outcomes_convolve]
    constructor
    · rintro ⟨_, ⟨x, hx, y, hy, rfl⟩, z, hz, rfl⟩
      exact ⟨x, hx, y + z, ⟨y, hy, z, hz, rfl⟩, (Int.add_assoc x y z).symm⟩
    · rintro ⟨x, hx, _, ⟨y, hy, z, hz, rfl⟩, rfl⟩
      exact ⟨x + y, ⟨x, hx, y, hy, rfl⟩, z, hz, Int.add_assoc x y z⟩
  · simp only [weightOf_eq_expect, expect_convolve, Int.add_assoc]

/-- Nothing is changed by an outcome that is always zero. -/
theorem certain_zero_convolve (d : Distribution Rat) : (certain 0).convolve d = d := by
  refine ext_weightOf (fun o => ?_) fun o => ?_
  · simp [mem_outcomes_convolve]
  · simp only [weightOf_eq_expect, expect_convolve, expect_certain, Int.zero_add]

/-- The weight of everything is the product of the weights of everything. -/
theorem total_convolve (d e : Distribution Rat) :
    (d.convolve e).total = d.total * e.total := by
  have hmul := d.expect_mul_right (fun _ => 1) (e.expect fun _ => 1)
  rw [total_eq_expect, total_eq_expect, total_eq_expect, expect_convolve, ← hmul]
  simp only [one_mul]

end Distribution

namespace Pool

open Dice.Distribution

/-- Some dice may be added in two groups. -/
theorem sumOfDice_add (faces count more : Nat) :
    (sumOfDice faces (count + more + 2) : Distribution Rat) =
      (sumOfDice faces (count + 1)).convolve (sumOfDice faces (more + 1)) := by
  -- The dice of the second group are taken over one by one.
  induction more with
  | zero => exact sumOfDice_succ faces count
  | succ more ih =>
    calc
      (sumOfDice faces (count + more + 3) : Distribution Rat) =
          (sumOfDice faces (count + more + 2)).convolve (uniform faces) := sumOfDice_succ _ _
      _ = ((sumOfDice faces (count + 1)).convolve (sumOfDice faces (more + 1))).convolve
          (uniform faces) := by rw [ih]
      _ = (sumOfDice faces (count + 1)).convolve (sumOfDice faces (more + 2)) :=
        convolve_assoc _ _ _

/-- The totals of a pool split in two are the sums of the totals of its parts. -/
theorem totals_split {p q r : Pool} (hp : 1 ≤ p.count.toNat) (hq : 1 ≤ q.count.toNat)
    (hcount : r.count.toNat = p.count.toNat + q.count.toNat) (hfaces : p.faces = r.faces)
    (hfaces' : q.faces = r.faces) (hoffset : r.offset.toInt = p.offset.toInt + q.offset.toInt) :
    (r.totals : Distribution Rat) = p.totals.convolve q.totals := by
  obtain ⟨count, hcp⟩ := Nat.exists_eq_add_of_le' hp
  obtain ⟨more, hcq⟩ := Nat.exists_eq_add_of_le' hq
  have hcr : r.count.toNat = count + more + 2 := by omega
  rw [totals, totals, totals, convolve_shift_shift, hoffset, hcr, hcp, hcq, hfaces, hfaces',
    sumOfDice_add]

end Pool

/-- With exact weights, outcomes may be added in either order and in any groups, adding an outcome
    that is always zero changes nothing, and the weight of everything is multiplied.  So a pool may
    be split anywhere: its law is that of the sum of two pools with as many dice and as great an
    offset together, all dice having the same number of faces. -/
theorem Distribution.convolve_as_addition :
    (∀ d e : Distribution Rat, d.convolve e = e.convolve d) ∧
    (∀ d e f : Distribution Rat, (d.convolve e).convolve f = d.convolve (e.convolve f)) ∧
    (∀ d : Distribution Rat, (certain 0).convolve d = d ∧ d.convolve (certain 0) = d) ∧
    (∀ d e : Distribution Rat, (d.convolve e).total = d.total * e.total) ∧
    ∀ p q r : Pool, 1 ≤ p.count.toNat → 1 ≤ q.count.toNat →
      r.count.toNat = p.count.toNat + q.count.toNat → p.faces = r.faces → q.faces = r.faces →
      r.offset.toInt = p.offset.toInt + q.offset.toInt →
      (r.law : Law Rat).distribution =
        (p.law : Law Rat).distribution.convolve (q.law : Law Rat).distribution := by
  refine ⟨convolve_comm, convolve_assoc, fun d => ?_, total_convolve, ?_⟩
  · exact ⟨certain_zero_convolve d, (convolve_comm _ _).trans (certain_zero_convolve d)⟩
  · intro p q r hp hq hcount hfaces hfaces' hoffset
    exact Pool.totals_split hp hq hcount hfaces hfaces' hoffset

/-- Five dice of six faces, plus one, are two of them, plus three, and three of them, less two. -/
theorem Distribution.convolve_as_addition_fiveDice :
    1 ≤ (⟨2, .standard, 6, 3⟩ : Pool).count.toNat ∧ 1 ≤ (⟨3, .standard, 6, -2⟩ : Pool).count.toNat ∧
      (Pool.law ⟨5, .standard, 6, 1⟩ : Law Rat).distribution =
        (Pool.law ⟨2, .standard, 6, 3⟩ : Law Rat).distribution.convolve
          (Pool.law ⟨3, .standard, 6, -2⟩ : Law Rat).distribution := by
  refine ⟨by decide, by decide, convolve_as_addition.2.2.2.2 ⟨2, .standard, 6, 3⟩
    ⟨3, .standard, 6, -2⟩ ⟨5, .standard, 6, 1⟩ ?_ ?_ ?_ ?_ ?_ ?_⟩ <;> decide

end Dice
