import Dice.Proofs.Distribution.Outcomes
import Mathlib.Algebra.BigOperators.Field
import Mathlib.Algebra.BigOperators.Intervals
import Mathlib.Algebra.BigOperators.Ring.List
import Mathlib.Algebra.Order.Field.Rat

namespace Dice

open scoped BigOperators

/-!
# Expectations over exact laws

With exact weights a distribution is what it makes of a function of the outcome: the sum of the
function's values, each times the weight of its outcome.  Every question about a distribution is
such a sum, and every way of building one has its own rule for them.

* `Distribution.expect` — the expectation of a function of the outcome.
* `Distribution.expect_convolve`, `Distribution.expect_shift`, `Distribution.expect_uniform` — the
  rules for sums of independent outcomes, for offsets and for a fair die.
* `Distribution.weightOf_eq_expect`, `Distribution.total_eq_expect` — weights as expectations.
-/

namespace Distribution

/-! ### Weighted sums over entries -/

/-- The values of a function at the outcomes, each times its weight, added up. -/
def weighted (f : Int → Rat) (entries : List (Int × Rat)) : Rat :=
  (entries.map fun e => f e.1 * e.2).sum

@[simp] theorem weighted_nil (f : Int → Rat) : weighted f [] = 0 := rfl

@[simp] theorem weighted_cons (f : Int → Rat) (e : Int × Rat) (entries : List (Int × Rat)) :
    weighted f (e :: entries) = f e.1 * e.2 + weighted f entries := by
  simp [weighted]

/-- Weighted sums over two lists add up. -/
theorem weighted_append (f : Int → Rat) (entries more : List (Int × Rat)) :
    weighted f (entries ++ more) = weighted f entries + weighted f more := by
  simp [weighted]

/-- Weight added to an outcome counts with the value at that outcome. -/
theorem weighted_addAt (f : Int → Rat) (o : Int) (w : Rat) (entries : List (Int × Rat)) :
    weighted f (addAt o w entries) = weighted f entries + f o * w := by
  have hzero : (Weight.zero : Rat) + w = w := Rat.zero_add w
  induction entries with
  | nil => rw [addAt, hzero, weighted_cons, weighted_nil, add_comm]
  | cons head rest ih =>
    obtain ⟨k, v⟩ := head
    rw [addAt]
    -- The outcome comes before the head, after it, or is the head.
    split
    · rw [hzero, weighted_cons, add_comm]
    · split
      · rw [weighted_cons, weighted_cons, ih, add_assoc]
      · have hk : o = k := by omega
        rw [hk, weighted_cons, weighted_cons]
        ring

/-- Gathering pairs adds their weighted sum. -/
theorem weighted_addAll (f : Int → Rat) (entries pairs : List (Int × Rat)) :
    weighted f (addAll entries pairs) = weighted f entries + weighted f pairs := by
  induction pairs generalizing entries with
  | nil => simp [addAll]
  | cons p pairs ih =>
    show weighted f (addAll (addAt p.1 p.2 entries) pairs) = _
    rw [ih, weighted_addAt, weighted_cons, add_assoc]

/-- The pairs of one outcome with all others take the function's values at their sums. -/
theorem weighted_sumRow (f : Int → Rat) (x : Int × Rat) (ys : List (Int × Rat)) :
    weighted f (sumRow x ys) = weighted (fun y => f (x.1 + y)) ys * x.2 := by
  induction ys with
  | nil => simp [sumRow]
  | cons y ys ih =>
    show weighted f ((x.1 + y.1, x.2 * y.2) :: sumRow x ys) = _
    rw [weighted_cons, ih, weighted_cons]
    ring

/-- The pairs of all outcomes are summed over one side first. -/
theorem weighted_sumPairs (f : Int → Rat) (xs ys : List (Int × Rat)) :
    weighted f (sumPairs xs ys) = weighted (fun x => weighted (fun y => f (x + y)) ys) xs := by
  induction xs with
  | nil => simp [sumPairs]
  | cons x xs ih =>
    show weighted f (sumRow x ys ++ sumPairs xs ys) = _
    rw [weighted_append, weighted_sumRow, ih, weighted_cons]

/-! ### Expectations -/

/-- The expectation of a function of the outcome. -/
def expect (d : Distribution Rat) (f : Int → Rat) : Rat := weighted f d.entries

/-- The expectation over a sum of independent outcomes is taken over one of them at a time. -/
theorem expect_convolve (d e : Distribution Rat) (f : Int → Rat) :
    (d.convolve e).expect f = d.expect fun x => e.expect fun y => f (x + y) := by
  rw [convolve_eq_ofPairs]
  show weighted f (addAll [] (sumPairs d.entries e.entries)) = _
  rw [weighted_addAll, weighted_nil, zero_add, weighted_sumPairs]
  rfl

/-- The expectation over moved outcomes is that of the moved function. -/
theorem expect_shift (d : Distribution Rat) (offset : Int) (f : Int → Rat) :
    (d.shift offset).expect f = d.expect fun x => f (x + offset) := by
  simp [expect, weighted, shift, Function.comp_def]

/-- The expectation of a sum is the sum of the expectations. -/
theorem expect_add (d : Distribution Rat) (f g : Int → Rat) :
    (d.expect fun x => f x + g x) = d.expect f + d.expect g := by
  simp only [expect, weighted, add_mul, List.sum_map_add]

/-- A factor that does not depend on the outcome comes out of the expectation. -/
theorem expect_mul_right (d : Distribution Rat) (f : Int → Rat) (c : Rat) :
    (d.expect fun x => f x * c) = d.expect f * c := by
  simp only [expect, weighted, mul_right_comm _ c, List.sum_map_mul_right]

/-- Expectations over two distributions may be taken in either order. -/
theorem expect_comm (d e : Distribution Rat) (F : Int → Int → Rat) :
    (d.expect fun x => e.expect fun y => F x y) = e.expect fun y => d.expect fun x => F x y := by
  -- The outcomes of the first distribution are taken one by one through the second sum.
  unfold expect
  induction d.entries with
  | nil => simp [weighted]
  | cons x xs ih =>
    simp only [weighted_cons]
    rw [ih]
    exact ((e.expect_add _ _).trans (congrArg (· + _) (e.expect_mul_right _ _))).symm

/-- With exact weights every face has its share. -/
theorem faceWeight_rat (faces : Nat) : (faceWeight faces : Rat) = 1 / (faces : Rat) := by
  show ((1 : Int) : Rat) / ((faces : Int) : Rat) = 1 / (faces : Rat)
  push_cast
  rfl

/-- The expectation over a fair die is the mean of the values at its faces. -/
theorem expect_uniform (faces : Nat) (f : Int → Rat) :
    (uniform faces).expect f = (∑ face ∈ Finset.Icc 1 faces, f face) / faces := by
  -- The faces are listed in order, and their sum does not ask for the order.
  have hsum : ∑ face ∈ Finset.Icc 1 faces, f face =
      ((List.range' 1 faces).map fun face : Nat => f face).sum := by
    rw [Nat.Icc_eq_range', Nat.add_sub_cancel]
    rfl
  rw [hsum, div_eq_mul_one_div, ← List.sum_map_mul_right]
  simp [expect, weighted, uniform, faceEntries, faceWeight_rat, Function.comp_def]

/-! ### Weights as expectations -/

/-- A function that is zero at all outcomes has no weighted sum. -/
theorem weighted_eq_zero {f : Int → Rat} {entries : List (Int × Rat)}
    (h : ∀ e ∈ entries, f e.1 = 0) : weighted f entries = 0 := by
  induction entries with
  | nil => rfl
  | cons e entries ih =>
    rw [weighted_cons, h e List.mem_cons_self, ih fun e he => h e (List.mem_cons_of_mem _ he)]
    ring

/-- Among ascending entries the indicator of an outcome finds the weight listed for it. -/
theorem weighted_indicator {entries : List (Int × Rat)}
    (h : entries.Pairwise (fun a b => a.1 < b.1)) (o : Int) :
    weighted (fun x => if x = o then 1 else 0) entries =
      match entries.find? (fun e => e.1 == o) with
      | some e => e.2
      | none => 0 := by
  induction entries with
  | nil => rfl
  | cons head rest ih =>
    obtain ⟨k, v⟩ := head
    obtain ⟨hk, hrest⟩ := List.pairwise_cons.mp h
    rw [weighted_cons]
    by_cases ho : k = o
    · -- All other outcomes are greater.
      have hzero : weighted (fun x => if x = o then 1 else 0) rest = 0 := by
        refine weighted_eq_zero fun e he => if_neg ?_
        have hlt : k < e.1 := hk e he
        omega
      rw [if_pos ho, hzero, List.find?_cons_of_pos (by simp [ho])]
      ring
    · -- The head counts nothing and is passed over.
      rw [if_neg ho, List.find?_cons_of_neg (by simp [ho]), ih hrest]
      ring

/-- The weight of an outcome is the expectation of its indicator. -/
theorem weightOf_eq_expect (d : Distribution Rat) (o : Int) :
    d.weightOf o = d.expect fun x => if x = o then 1 else 0 := by
  rw [expect, weighted_indicator d.ascending, weightOf]
  cases d.entries.find? (fun e => e.1 == o) <;> rfl

/-- Adding up exact weights from left to right is their sum. -/
theorem sum_rat (weights : List Rat) : Weight.sum weights = weights.sum :=
  List.sum_eq_foldl.symm

/-- The weight of everything that can happen is the expectation of one. -/
theorem total_eq_expect (d : Distribution Rat) : d.total = d.expect fun _ => 1 := by
  rw [total, sum_rat]
  simp [expect, weighted, weights]

end Distribution

end Dice
