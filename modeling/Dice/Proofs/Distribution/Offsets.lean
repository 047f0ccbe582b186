import Dice.Proofs.Distribution.Gathering

namespace Dice

/-!
# Offsets may be added at any point

Moving all outcomes keeps their order, and with it the order in which the weights of a sum are added
up.  So for any kind of weight, floats with their last bit included, it makes no difference whether
outcomes are moved before they are added to others or afterwards.

* `Distribution.weightOf_shift` — outcomes that are moved keep their weight.
* `Distribution.productsAt_shift` — moved outcomes are paired as before, in the same order.
* `Distribution.convolve_shift_shift`, `Distribution.shift_shift` — the rules for offsets.
* `Distribution.offset_at_any_point` — what follows for pools.
-/

namespace Distribution

variable {W : Type}

/-- An offset moves every outcome. -/
theorem outcomes_shift (d : Distribution W) (offset : Int) :
    (d.shift offset).outcomes = d.outcomes.map (· + offset) := by
  simp only [outcomes, shift, List.map_map]
  rfl

/-- Two offsets, one after the other, are one. -/
theorem shift_shift (d : Distribution W) (a b : Int) : (d.shift a).shift b = d.shift (a + b) := by
  refine ext_entries ?_
  simp only [shift, List.map_map]
  exact List.map_congr_left fun e _ => congrArg (·, e.2) (Int.add_assoc e.1 a b)

@[simp] theorem shift_zero (d : Distribution W) : d.shift 0 = d := by
  refine ext_entries ?_
  simp [shift]

variable [Weight W]

/-- Outcomes that are moved keep their weight. -/
theorem weightOf_shift (d : Distribution W) (offset o : Int) :
    (d.shift offset).weightOf o = d.weightOf (o - offset) := by
  by_cases ho : o ∈ (d.shift offset).outcomes
  · have hmem := weightOf_mem_entries (mem_outcomes_shift.mp ho)
    refine weightOf_eq (List.mem_map.mpr ⟨_, hmem, ?_⟩)
    rw [Int.sub_add_cancel]
  · rw [weightOf_of_not_mem ho, weightOf_of_not_mem (mt mem_outcomes_shift.mpr ho)]

/-- The pairs that make a moved outcome are those that made it before, in the same order. -/
theorem productsAt_shift (d e : Distribution W) (a b o : Int) :
    productsAt (d.shift a) (e.shift b) (o + (a + b)) = productsAt d e o := by
  -- What is missing of the moved outcome is what was missing of the first one, moved as well.
  have hrest : ∀ x : Int, o + (a + b) - (x + a) = o - x + b := fun x => by omega
  have hpair : (fun x => decide (o + (a + b) - x ∈ (e.shift b).outcomes)) ∘ (· + a) =
      fun x => decide (o - x ∈ e.outcomes) := by
    funext x
    simp only [Function.comp_apply, hrest, mem_outcomes_shift, Int.add_sub_cancel]
  rw [productsAt, d.outcomes_shift, List.filter_map, hpair, List.map_map]
  refine List.map_congr_left fun x _ => ?_
  simp only [Function.comp_apply, hrest, weightOf_shift, Int.add_sub_cancel]

/-- Offsets may be added to two independent outcomes or to their sum. -/
theorem convolve_shift_shift (d e : Distribution W) (a b : Int) :
    (d.shift a).convolve (e.shift b) = (d.convolve e).shift (a + b) := by
  refine ext_weightOf (fun o => ?_) fun o => ?_
  · simp only [mem_outcomes_convolve, mem_outcomes_shift]
    constructor
    · rintro ⟨x, hx, y, hy, rfl⟩
      exact ⟨x - a, hx, y - b, hy, by omega⟩
    · rintro ⟨x, hx, y, hy, hsum⟩
      exact ⟨x + a, by rwa [Int.add_sub_cancel], y + b, by rwa [Int.add_sub_cancel], by omega⟩
  · obtain ⟨k, rfl⟩ : ∃ k, o = k + (a + b) := ⟨o - (a + b), by omega⟩
    rw [weightOf_shift, weightOf_convolve, weightOf_convolve, productsAt_shift, Int.add_sub_cancel]

/-- An offset may be added to the first of two independent outcomes or to their sum. -/
theorem convolve_shift_left (d e : Distribution W) (a : Int) :
    (d.shift a).convolve e = (d.convolve e).shift a := by
  have h := convolve_shift_shift d e a 0
  rwa [shift_zero, Int.add_zero] at h

/-- An offset may be added before an outcome is added several times or afterwards. -/
theorem repeat_convolve_shift (d e : Distribution W) (a : Int) (count : Nat) :
    Nat.repeat (fun d => d.convolve e) count (d.shift a) =
      (Nat.repeat (fun d => d.convolve e) count d).shift a := by
  induction count with
  | zero => rfl
  | succ count ih =>
    show (Nat.repeat (fun d => d.convolve e) count (d.shift a)).convolve e = _
    rw [ih, convolve_shift_left]
    rfl

end Distribution

namespace Pool

variable {W : Type} [Weight W]

/-- The totals of pools that differ in their offset only are moved by the difference. -/
theorem totals_offset (p : Pool) (offset : Int32) :
    ({ p with offset := offset } : Pool).totals =
      (p.totals : Distribution W).shift (offset.toInt - p.offset.toInt) := by
  have hoffset : p.offset.toInt + (offset.toInt - p.offset.toInt) = offset.toInt := by omega
  rw [totals, totals, Distribution.shift_shift, hoffset]

end Pool

/-- Two offsets may be added to two independent outcomes or to their sum, and one after the other or
    at once, without a change in any weight.  So the totals of a pool are those of its dice when the
    first one is moved by the offset, and with another offset they are as far away as the offsets
    are apart, each with the same weight. -/
theorem Distribution.offset_at_any_point (W : Type) [Weight W] :
    (∀ (d e : Distribution W) (a b : Int),
      (d.shift a).convolve (e.shift b) = (d.convolve e).shift (a + b)) ∧
    (∀ (d : Distribution W) (a b : Int), (d.shift a).shift b = d.shift (a + b)) ∧
    (∀ p : Pool, (p.law : Law W).distribution =
      Nat.repeat (fun d => d.convolve (uniform p.faces.toNat)) (p.count.toNat - 1)
        ((uniform p.faces.toNat).shift p.offset.toInt)) ∧
    (∀ (p : Pool) (offset : Int32) (o : Int),
      (o + (offset.toInt - p.offset.toInt) ∈
          (({ p with offset := offset } : Pool).law : Law W).distribution.outcomes ↔
        o ∈ (p.law : Law W).distribution.outcomes) ∧
      (({ p with offset := offset } : Pool).law : Law W).distribution.weightOf
          (o + (offset.toInt - p.offset.toInt)) =
        (p.law : Law W).distribution.weightOf o) := by
  refine ⟨convolve_shift_shift, shift_shift, fun p => ?_, fun p offset o => ?_⟩
  · exact (repeat_convolve_shift _ _ _ _).symm
  · have hlaw : (({ p with offset := offset } : Pool).law : Law W).distribution =
        (p.law : Law W).distribution.shift (offset.toInt - p.offset.toInt) := p.totals_offset offset
    rw [hlaw, mem_outcomes_shift, weightOf_shift, Int.add_sub_cancel]
    exact ⟨Iff.rfl, rfl⟩

end Dice
