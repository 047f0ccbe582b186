import Dice.Proofs.Distribution.Outcomes

namespace Dice.Distribution

/-!
# The outcome that leads

The most likely outcome and the highest weight are found in one pass over the entries each.  Both
passes end at the outcome whose weight no earlier one reaches and no later one exceeds.  What is
asked of the order of weights is asked of that outcome only, so this serves floats as well.

* `exists_entries_eq` — the entries before and after that of an outcome.
* `mostLikely_eq_some` — the outcome that the first pass keeps.
* `highest_eq_weightOf` — the weight that the second pass keeps.
-/

variable {W : Type} [Weight W]

/-- The entry of an outcome parts the entries of lesser outcomes from those of greater ones. -/
theorem exists_entries_eq {d : Distribution W} {o : Int} (ho : o ∈ d.outcomes) :
    ∃ before after, d.entries = before ++ (o, d.weightOf o) :: after ∧
      (∀ e ∈ before, e.1 ∈ d.outcomes ∧ e.1 < o ∧ e.2 = d.weightOf e.1) ∧
      ∀ e ∈ after, e.1 ∈ d.outcomes ∧ o < e.1 ∧ e.2 = d.weightOf e.1 := by
  obtain ⟨before, after, hsplit⟩ := List.append_of_mem (weightOf_mem_entries ho)
  have hascending := d.ascending
  rw [hsplit, List.pairwise_append, List.pairwise_cons] at hascending
  obtain ⟨-, ⟨hafter, -⟩, hbefore⟩ := hascending
  have hmem : ∀ e ∈ d.entries, e.1 ∈ d.outcomes ∧ e.2 = d.weightOf e.1 := fun e he =>
    ⟨mem_outcomes.mpr ⟨e.2, he⟩, (weightOf_eq he).symm⟩
  refine ⟨before, after, hsplit, fun e he => ?_, fun e he => ?_⟩
  · obtain ⟨houtcome, hweight⟩ := hmem e (by simp [hsplit, he])
    exact ⟨houtcome, hbefore e he _ List.mem_cons_self, hweight⟩
  · obtain ⟨houtcome, hweight⟩ := hmem e (by simp [hsplit, he])
    exact ⟨houtcome, hafter e he, hweight⟩

/-! ### The most likely outcome -/

/-- The best entry so far is the one before or one of those looked at. -/
theorem mem_of_foldl_better {entries : List (Int × W)} {best : Option (Int × W)} {b : Int × W}
    (h : entries.foldl better best = some b) : best = some b ∨ b ∈ entries := by
  induction entries generalizing best with
  | nil => exact .inl h
  | cons e entries ih =>
    rcases ih h with hbest | hmem
    · unfold better at hbest
      split at hbest
      · split at hbest
        · exact .inl hbest
        · exact .inr (List.mem_cons.mpr (.inl (Option.some.inj hbest).symm))
      · exact .inr (List.mem_cons.mpr (.inl (Option.some.inj hbest).symm))
    · exact .inr (List.mem_cons_of_mem _ hmem)

/-- The best entry stays the best if no other has more weight. -/
theorem foldl_better_of_le {b : Int × W} {entries : List (Int × W)}
    (h : ∀ e ∈ entries, e.2 ≤ b.2) : entries.foldl better (some b) = some b := by
  induction entries with
  | nil => rfl
  | cons e entries ih =>
    have hstep : better (some b) e = some b := if_pos (h e List.mem_cons_self)
    rw [List.foldl_cons, hstep, ih fun e' he' => h e' (List.mem_cons_of_mem e he')]

/-- The most likely outcome is the one whose weight is not reached before it and not exceeded after
    it. -/
theorem mostLikely_eq_some {d : Distribution W} {o : Int} (ho : o ∈ d.outcomes)
    (hbefore : ∀ k ∈ d.outcomes, k < o → ¬ d.weightOf o ≤ d.weightOf k)
    (hafter : ∀ k ∈ d.outcomes, o < k → d.weightOf k ≤ d.weightOf o) :
    d.mostLikely = some o := by
  obtain ⟨before, after, hsplit, hless, hmore⟩ := exists_entries_eq ho
  -- The entry wins against whatever was the best before it, and then stays.
  have hwin : better (before.foldl better none) (o, d.weightOf o) = some (o, d.weightOf o) := by
    cases hbest : before.foldl better none with
    | none => rfl
    | some b =>
      have hb : b ∈ before := (mem_of_foldl_better hbest).resolve_left (by simp)
      obtain ⟨hmem, hlt, hweight⟩ := hless b hb
      exact if_neg (hweight ▸ hbefore b.1 hmem hlt)
  have hstay : ∀ e ∈ after, e.2 ≤ d.weightOf o := fun e he => by
    obtain ⟨hmem, hlt, hweight⟩ := hmore e he
    exact hweight ▸ hafter e.1 hmem hlt
  rw [mostLikely, hsplit, List.foldl_append, List.foldl_cons, hwin, foldl_better_of_le hstay]
  rfl

/-! ### The highest weight -/

/-- The greatest weight so far is the one before or one of those looked at. -/
theorem foldl_greater_mem (weights : List W) (v : W) :
    weights.foldl greater v = v ∨ weights.foldl greater v ∈ weights := by
  induction weights generalizing v with
  | nil => exact .inl rfl
  | cons w weights ih =>
    rw [List.foldl_cons]
    rcases ih (greater v w) with h | h
    · rw [h, greater]
      split
      · exact .inr List.mem_cons_self
      · exact .inl rfl
    · exact .inr (List.mem_cons_of_mem w h)

/-- The greatest weight stays the greatest if no other is above it. -/
theorem foldl_greater_of_not_lt {v : W} {weights : List W} (h : ∀ w ∈ weights, ¬ v < w) :
    weights.foldl greater v = v := by
  induction weights with
  | nil => rfl
  | cons w weights ih =>
    have hstep : greater v w = v := if_neg (h w List.mem_cons_self)
    rw [List.foldl_cons, hstep, ih fun w' hw' => h w' (List.mem_cons_of_mem w hw')]

/-- The highest weight is that of an outcome, if it is above zero and all weights before it, and not
    below any after it. -/
theorem highest_eq_weightOf {d : Distribution W} {o : Int} (ho : o ∈ d.outcomes)
    (hzero : Weight.zero < d.weightOf o)
    (hbefore : ∀ k ∈ d.outcomes, k < o → d.weightOf k < d.weightOf o)
    (hafter : ∀ k ∈ d.outcomes, o < k → ¬ d.weightOf o < d.weightOf k) :
    d.highest = d.weightOf o := by
  obtain ⟨before, after, hsplit, hless, hmore⟩ := exists_entries_eq ho
  have hwin : greater ((before.map (·.2)).foldl greater Weight.zero) (d.weightOf o) =
      d.weightOf o := by
    refine if_pos ?_
    rcases foldl_greater_mem (before.map (·.2)) Weight.zero with h | h
    · rwa [h]
    · obtain ⟨e, he, hbest⟩ := List.mem_map.mp h
      obtain ⟨hmem, hlt, hweight⟩ := hless e he
      rw [← hbest, hweight]
      exact hbefore e.1 hmem hlt
  have hstay : ∀ w ∈ after.map (·.2), ¬ d.weightOf o < w := fun w hw => by
    obtain ⟨e, he, rfl⟩ := List.mem_map.mp hw
    obtain ⟨hmem, hlt, hweight⟩ := hmore e he
    exact hweight ▸ hafter e.1 hmem hlt
  rw [highest, weights, hsplit, List.map_append, List.map_cons, List.foldl_append, List.foldl_cons,
    hwin, foldl_greater_of_not_lt hstay]

end Dice.Distribution
