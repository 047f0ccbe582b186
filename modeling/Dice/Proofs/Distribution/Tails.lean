import Dice.Proofs.Distribution.Counting
import Mathlib.Algebra.Order.BigOperators.Group.List

namespace Dice

open scoped BigOperators

/-!
# Tails

The weight of all outcomes on one side of a number.  With exact weights this is the expectation of
an indicator, so how two tails differ is a question of which outcomes they hold.

* `Distribution.sum_filter_eq_expect` — the weight of the outcomes with a property.
* `Distribution.expect_indicator_or` — the weight of two properties that no outcome has together.
* `Distribution.atLeast_add_atMost`, `Distribution.atLeast_eq_add`, `Distribution.atMost_eq_add` —
  both sides of a number, and one number more on either side.
* `Distribution.expect_mono` — expectations over weights that are not below zero.
* `Pool.waysFrom` — the face sequences of a pool that reach a total.
* `Pool.tails_of_law` — the tails of distributions and of laws.
-/

namespace Distribution

/-! ### Outcomes with a property -/

/-- The weights of the outcomes with a property add up to the expectation of its indicator. -/
theorem sum_filter_eq_expect (d : Distribution Rat) (q : Int → Prop) [DecidablePred q] :
    Weight.sum ((d.entries.filter fun e => q e.1).map (·.2)) =
      d.expect fun x => if q x then 1 else 0 := by
  rw [sum_rat, expect]
  induction d.entries with
  | nil => rfl
  | cons e entries ih =>
    rw [weighted_cons, ← ih]
    by_cases he : q e.1
    · rw [List.filter_cons_of_pos (by simpa using he), if_pos he, one_mul]
      rfl
    · rw [List.filter_cons_of_neg (by simpa using he), if_neg he, zero_mul, zero_add]

/-- The weight of the outcomes from a number on is what their indicator is expected to be. -/
theorem atLeast_eq_expect (d : Distribution Rat) (k : Int) :
    d.atLeast k = d.expect fun x => if k ≤ x then 1 else 0 :=
  d.sum_filter_eq_expect fun x => k ≤ x

/-- The weight of the outcomes up to a number is what their indicator is expected to be. -/
theorem atMost_eq_expect (d : Distribution Rat) (k : Int) :
    d.atMost k = d.expect fun x => if x ≤ k then 1 else 0 :=
  d.sum_filter_eq_expect fun x => x ≤ k

/-- Where no outcome has two properties, those with either weigh as much as those with each. -/
theorem expect_indicator_or (d : Distribution Rat) {p q r : Int → Prop} [DecidablePred p]
    [DecidablePred q] [DecidablePred r] (hor : ∀ x, r x ↔ p x ∨ q x) (hnot : ∀ x, p x → ¬ q x) :
    (d.expect fun x => if r x then 1 else 0) =
      (d.expect fun x => if p x then 1 else 0) + d.expect fun x => if q x then 1 else 0 := by
  rw [← expect_add]
  refine congrArg d.expect (funext fun x => ?_)
  by_cases hp : p x
  · rw [if_pos ((hor x).mpr (.inl hp)), if_pos hp, if_neg (hnot x hp), add_zero]
  · rw [if_neg hp, zero_add]
    exact if_congr ((hor x).trans (or_iff_right hp)) rfl rfl

/-! ### Both sides of a number -/

/-- Every outcome is at least a number or at most the one before it. -/
theorem atLeast_add_atMost (d : Distribution Rat) (k : Int) :
    d.atLeast k + d.atMost (k - 1) = d.total := by
  have hwhole : d.total = d.expect fun x => if k ≤ x ∨ x ≤ k - 1 then 1 else 0 := by
    rw [total_eq_expect]
    refine congrArg d.expect (funext fun x => (if_pos ?_).symm)
    omega
  rw [atLeast_eq_expect, atMost_eq_expect, hwhole]
  refine (d.expect_indicator_or (fun x => Iff.rfl) fun x hx => ?_).symm
  omega

/-- The outcomes from a number on are the number and those from the next one on. -/
theorem atLeast_eq_add (d : Distribution Rat) (k : Int) :
    d.atLeast k = d.weightOf k + d.atLeast (k + 1) := by
  rw [atLeast_eq_expect, atLeast_eq_expect, weightOf_eq_expect]
  refine d.expect_indicator_or (fun x => ?_) fun x hx => ?_
  · omega
  · omega

/-- The outcomes up to a number are those up to the one before it and the number. -/
theorem atMost_eq_add (d : Distribution Rat) (k : Int) :
    d.atMost k = d.atMost (k - 1) + d.weightOf k := by
  rw [atMost_eq_expect, atMost_eq_expect, weightOf_eq_expect]
  refine d.expect_indicator_or (fun x => ?_) fun x hx => ?_
  · omega
  · omega

/-! ### Weights that are not below zero -/

/-- Greater values are expected to be greater, if no weight is below zero. -/
theorem expect_mono {d : Distribution Rat} (h : ∀ e ∈ d.entries, 0 ≤ e.2) {f g : Int → Rat}
    (hfg : ∀ x, f x ≤ g x) : d.expect f ≤ d.expect g := by
  refine List.sum_le_sum fun e he => ?_
  exact mul_le_mul_of_nonneg_right (hfg e.1) (h e he)

/-- The indicator of a property is not above that of a property that follows from it. -/
theorem indicator_le {p q : Prop} [Decidable p] [Decidable q] (h : p → q) :
    (if p then 1 else 0 : Rat) ≤ if q then 1 else 0 := by
  by_cases hp : p
  · rw [if_pos hp, if_pos (h hp)]
  · rw [if_neg hp]
    split
    · exact zero_le_one
    · exact le_rfl

/-- The outcomes from a greater number on have no more weight. -/
theorem atLeast_le_of_le {d : Distribution Rat} (h : ∀ e ∈ d.entries, 0 ≤ e.2) {j k : Int}
    (hjk : j ≤ k) : d.atLeast k ≤ d.atLeast j := by
  rw [atLeast_eq_expect, atLeast_eq_expect]
  exact expect_mono h fun x => indicator_le fun hx => hjk.trans hx

/-- The outcomes up to a smaller number have no more weight. -/
theorem atMost_le_of_le {d : Distribution Rat} (h : ∀ e ∈ d.entries, 0 ≤ e.2) {j k : Int}
    (hjk : j ≤ k) : d.atMost j ≤ d.atMost k := by
  rw [atMost_eq_expect, atMost_eq_expect]
  exact expect_mono h fun x => indicator_le fun hx => hx.trans hjk

/-! ### Numbers beyond all outcomes -/

/-- From the least outcome on, all of the weight is counted. -/
theorem atLeast_of_forall_le {d : Distribution Rat} {k : Int} (h : ∀ o ∈ d.outcomes, k ≤ o) :
    d.atLeast k = d.total := by
  rw [atLeast, List.filter_eq_self.mpr]
  · rfl
  · intro e he
    exact decide_eq_true (h e.1 (mem_outcomes.mpr ⟨e.2, he⟩))

/-- Beyond the greatest outcome no weight is counted. -/
theorem atLeast_of_forall_lt {d : Distribution Rat} {k : Int} (h : ∀ o ∈ d.outcomes, o < k) :
    d.atLeast k = 0 := by
  rw [atLeast, List.filter_eq_nil_iff.mpr]
  · rfl
  · intro e he hk
    have hlt := h e.1 (mem_outcomes.mpr ⟨e.2, he⟩)
    have hle := of_decide_eq_true hk
    omega

end Distribution

namespace Pool

open Dice.Distribution

/-- The number of face sequences of a pool that reach a total with its offset. -/
def waysFrom (p : Pool) (k : Int) : Nat :=
  {g ∈ faceSequences p.faces.toNat p.count.toNat | k ≤ (∑ i, (g i : Int)) + p.offset.toInt}.card

/-- The probability to reach a total is the share of the face sequences that do. -/
theorem atLeast_totals {p : Pool} (hc : 1 ≤ p.count.toNat) (k : Int) :
    p.totals.atLeast k = (p.waysFrom k : Rat) / (p.faces.toNat : Rat) ^ p.count.toNat := by
  rw [atLeast_eq_expect, expect_totals hc, Finset.sum_boole, waysFrom]

/-- With exact weights, the outcomes from a number on and those before it weigh as much as all.
    Without the number itself, the outcomes from it on and those up to it lose its weight.  If no
    weight is below zero, the outcomes from a number on do not gain weight as the number grows, and
    those up to it do not lose any.  The probability that a pool with dice and faces reaches a total
    is the number of face sequences that do, divided by the number of all: one up to the lowest
    total, and zero beyond the highest. -/
theorem tails_of_law :
    (∀ (d : Distribution Rat) (k : Int),
      d.atLeast k + d.atMost (k - 1) = d.total ∧
      d.atLeast k - d.atLeast (k + 1) = d.weightOf k ∧
      d.atMost k - d.atMost (k - 1) = d.weightOf k) ∧
    (∀ d : Distribution Rat, (∀ e ∈ d.entries, 0 ≤ e.2) →
      ∀ j k : Int, j ≤ k → d.atLeast k ≤ d.atLeast j ∧ d.atMost j ≤ d.atMost k) ∧
    ∀ p : Pool, 1 ≤ p.count.toNat → 1 ≤ p.faces.toNat → ∀ k : Int,
      (p.law : Law Rat).distribution.atLeast k =
        (p.waysFrom k : Rat) / (p.faces.toNat : Rat) ^ p.count.toNat ∧
      (k ≤ (p.law : Law Rat).lowest → (p.law : Law Rat).distribution.atLeast k = 1) ∧
      ((p.law : Law Rat).highest < k → (p.law : Law Rat).distribution.atLeast k = 0) := by
  refine ⟨fun d k => ⟨d.atLeast_add_atMost k, ?_, ?_⟩, fun d h j k hjk => ?_, fun p hc hf k => ?_⟩
  · rw [d.atLeast_eq_add k, add_sub_cancel_right]
  · rw [d.atMost_eq_add k, add_sub_cancel_left]
  · exact ⟨atLeast_le_of_le h hjk, atMost_le_of_le h hjk⟩
  · have houtcomes := fun o : Int => mem_outcomes_totals (W := Rat) hc hf (o := o)
    refine ⟨atLeast_totals hc k, fun hk => ?_, fun hk => ?_⟩
    · refine (atLeast_of_forall_le fun o ho => ?_).trans (total_totals hc hf)
      exact hk.trans ((houtcomes o).mp ho).1
    · refine atLeast_of_forall_lt fun o ho => ?_
      exact ((houtcomes o).mp ho).2.trans_lt hk

/-- No face of a die weighs less than zero.  Two dice of four faces, less three, reach two in ten of
    their sixteen ways, always reach one below zero, and never reach six. -/
theorem tails_of_law_twoDice :
    (∀ e ∈ (uniform 6 : Distribution Rat).entries, 0 ≤ e.2) ∧
      (uniform 6 : Distribution Rat).atLeast 5 ≤ (uniform 6 : Distribution Rat).atLeast 2 ∧
      1 ≤ (⟨2, .unique, 4, -3⟩ : Pool).count.toNat ∧
      1 ≤ (⟨2, .unique, 4, -3⟩ : Pool).faces.toNat ∧
      (law ⟨2, .unique, 4, -3⟩ : Law Rat).distribution.atLeast 2 = 10 / 4 ^ 2 ∧
      (law ⟨2, .unique, 4, -3⟩ : Law Rat).distribution.atLeast (-1) = 1 ∧
      (law ⟨2, .unique, 4, -3⟩ : Law Rat).distribution.atLeast 6 = 0 := by
  obtain ⟨-, hmono, hpool⟩ := tails_of_law
  have hweights : ∀ e ∈ (uniform 6 : Distribution Rat).entries, 0 ≤ e.2 := by decide +kernel
  have hways : waysFrom ⟨2, .unique, 4, -3⟩ 2 = 10 := by decide +kernel
  have htail := fun k => hpool ⟨2, .unique, 4, -3⟩ (by decide) (by decide) k
  have htwo := (htail 2).1
  rw [hways] at htwo
  exact ⟨hweights, (hmono _ hweights 2 5 (by decide)).1, by decide, by decide, htwo,
    (htail (-1)).2.1 (by decide), (htail 6).2.2 (by decide)⟩

end Pool

end Dice
