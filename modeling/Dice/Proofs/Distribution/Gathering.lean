import Dice.Proofs.Distribution.Outcomes
import Mathlib.Data.List.Perm.Subperm

namespace Dice.Distribution

/-!
# Gathered weights

The weight that a sum gives to an outcome is added up from left to right, starting from nothing, over
the pairs of outcomes that make it.  No law of arithmetic is assumed, so this holds of
floating-point weights as well, whatever they are.

* `weightAt_addAll` — gathering adds the weights of the pairs that name an outcome.
* `productsAt` — what the pairs of outcomes that make an outcome weigh, in the order of the first.
* `weightOf_convolve`, `convolve_adds_in_order` — the weights of a sum, bit for bit.
* `length_productsAt_le` — how many pairs make an outcome.
-/

variable {W : Type} [Weight W]

/-- The weight that a list of entries has for an outcome. -/
def weightAt (entries : List (Int × W)) (o : Int) : W :=
  match entries.find? (fun e => e.1 == o) with
  | some e => e.2
  | none => Weight.zero

/-- The weight of an outcome is looked up in the entries. -/
theorem weightOf_eq_weightAt (d : Distribution W) (o : Int) : d.weightOf o = weightAt d.entries o :=
  rfl

@[simp] theorem weightAt_nil (o : Int) : weightAt ([] : List (Int × W)) o = Weight.zero := rfl

/-- The first entry of an outcome is the one that counts. -/
theorem weightAt_cons (e : Int × W) (entries : List (Int × W)) (o : Int) :
    weightAt (e :: entries) o = if e.1 = o then e.2 else weightAt entries o := by
  by_cases h : e.1 = o
  · rw [if_pos h, weightAt, List.find?_cons_of_pos (by simpa using h)]
  · rw [if_neg h, weightAt, List.find?_cons_of_neg (by simpa using h)]
    rfl

/-- What is below all entries has no weight. -/
theorem weightAt_eq_zero {entries : List (Int × W)} {o : Int} (h : ∀ e ∈ entries, o < e.1) :
    weightAt entries o = Weight.zero := by
  induction entries with
  | nil => rfl
  | cons e entries ih =>
    have he : o < e.1 := h e List.mem_cons_self
    rw [weightAt_cons, if_neg (by omega), ih fun e' he' => h e' (List.mem_cons_of_mem e he')]

/-- Adding weight to an outcome changes the weight of that outcome alone. -/
theorem weightAt_addAt {entries : List (Int × W)} (h : entries.Pairwise fun a b => a.1 < b.1)
    (k o : Int) (w : W) :
    weightAt (addAt k w entries) o =
      if k = o then weightAt entries o + w else weightAt entries o := by
  -- The outcome stands before the first entry, behind it, or is the one of that entry.
  induction entries with
  | nil => rw [addAt, weightAt_cons, weightAt_nil]
  | cons e entries ih =>
    obtain ⟨hfirst, hrest⟩ := List.pairwise_cons.mp h
    rw [addAt]
    split
    · next hbelow =>
      rw [weightAt_cons]
      split
      · next hk =>
        subst hk
        have hzero : weightAt (e :: entries) k = Weight.zero := by
          refine weightAt_eq_zero fun e' he' => ?_
          rcases List.mem_cons.mp he' with rfl | he'
          · exact hbelow
          · exact hbelow.trans (hfirst e' he')
        rw [hzero]
      · rfl
    · split
      · next habove =>
        rw [weightAt_cons, weightAt_cons, ih hrest]
        split
        · next ho => rw [if_neg (by omega)]
        · rfl
      · next hle hge =>
        obtain rfl : e.1 = k := by omega
        rw [weightAt_cons, weightAt_cons]
        split <;> rfl

/-- Gathering adds the weights of the pairs that name an outcome, one after the other. -/
theorem weightAt_addAll {entries : List (Int × W)} (h : entries.Pairwise fun a b => a.1 < b.1)
    (pairs : List (Int × W)) (o : Int) :
    weightAt (addAll entries pairs) o =
      (pairs.filter fun p => p.1 = o).foldl (fun v p => v + p.2) (weightAt entries o) := by
  -- Each pair changes the weight that the next ones start from, if it names the outcome.
  induction pairs generalizing entries with
  | nil => rfl
  | cons p pairs ih =>
    show weightAt (addAll (addAt p.1 p.2 entries) pairs) o = _
    rw [ih (ascending_addAt h), weightAt_addAt h]
    by_cases hp : p.1 = o
    · rw [if_pos hp, List.filter_cons_of_pos (by simpa using hp), List.foldl_cons]
    · rw [if_neg hp, List.filter_cons_of_neg (by simpa using hp)]

/-! ### The pairs that make an outcome -/

/-- An outcome has one entry if it is listed, and none if it is not. -/
theorem filter_entries (d : Distribution W) (o : Int) :
    (d.entries.filter fun e => e.1 = o) =
      if o ∈ d.outcomes then [(o, d.weightOf o)] else [] := by
  rw [d.entries_eq_map, List.filter_map]
  show (d.outcomes.filter fun x => x = o).map (fun x => (x, d.weightOf x)) = _
  rw [List.filter_eq, d.nodup_outcomes.count]
  split <;> rfl

/-- The products of the weights of each two outcomes that make an outcome, in ascending order of the
    first of the two. -/
def productsAt (d e : Distribution W) (o : Int) : List W :=
  (d.outcomes.filter fun x => o - x ∈ e.outcomes).map fun x => d.weightOf x * e.weightOf (o - x)

/-- One outcome makes another together with what is missing, if that can happen. -/
theorem map_filter_sumRow (x : Int × W) (e : Distribution W) (o : Int) :
    ((sumRow x e.entries).filter fun p => p.1 = o).map (·.2) =
      if o - x.1 ∈ e.outcomes then [x.2 * e.weightOf (o - x.1)] else [] := by
  have hfilter : ((fun p : Int × W => decide (p.1 = o)) ∘
      fun y : Int × W => (x.1 + y.1, x.2 * y.2)) = fun y => decide (y.1 = o - x.1) := by
    funext y
    simp only [Function.comp_apply, decide_eq_decide]
    omega
  rw [sumRow, List.filter_map, hfilter, filter_entries]
  split <;> rfl

/-- Of all pairs, those that make an outcome come in ascending order of the first. -/
theorem map_filter_sumPairs (d e : Distribution W) (o : Int) :
    ((sumPairs d.entries e.entries).filter fun p => p.1 = o).map (·.2) = productsAt d e o := by
  rw [sumPairs, d.entries_eq_map, productsAt]
  -- Each outcome of the first distribution has one row, which gives one product at most.
  induction d.outcomes with
  | nil => rfl
  | cons x xs ih =>
    rw [List.map_cons, List.flatMap_cons, List.filter_append, List.map_append, ih,
      map_filter_sumRow, List.filter_cons]
    by_cases hmem : o - x ∈ e.outcomes
    · rw [if_pos hmem, if_pos (decide_eq_true hmem), List.map_cons, List.singleton_append]
    · rw [if_neg hmem, if_neg (by simpa using hmem), List.nil_append]

/-- The weight of an outcome of a sum is added up over the pairs of outcomes that make it. -/
theorem weightOf_convolve (d e : Distribution W) (o : Int) :
    (d.convolve e).weightOf o = (productsAt d e o).foldl (· + ·) Weight.zero := by
  rw [convolve_eq_ofPairs, weightOf_eq_weightAt, ofPairs, weightAt_addAll .nil, weightAt_nil,
    ← map_filter_sumPairs, List.foldl_map]

/-- Not more pairs make an outcome of a sum than there are outcomes of the second distribution. -/
theorem length_productsAt_le (d e : Distribution W) (o : Int) :
    (productsAt d e o).length ≤ e.size := by
  -- Each of them has an outcome of its own of the second distribution.
  have hnodup : ((d.outcomes.filter fun x => o - x ∈ e.outcomes).map (o - ·)).Nodup :=
    (d.nodup_outcomes.filter _).map fun a b h => by simpa using h
  have hsubset : ((d.outcomes.filter fun x => o - x ∈ e.outcomes).map (o - ·)) ⊆ e.outcomes := by
    intro y hmem
    obtain ⟨x, hx, rfl⟩ := List.mem_map.mp hmem
    exact of_decide_eq_true (List.mem_filter.mp hx).2
  calc
    (productsAt d e o).length =
        ((d.outcomes.filter fun x => o - x ∈ e.outcomes).map (o - ·)).length := by
      rw [productsAt, List.length_map, List.length_map]
    _ ≤ e.outcomes.length := (hnodup.subperm hsubset).length_le
    _ = e.size := List.length_map _

/-- A sum of two independent outcomes lists every sum of an outcome of the first and one of the
    second, once.  Its weight is added up from left to right, starting from zero, over the pairs
    with that sum in ascending order of the first.  So it is the distribution that gathers all
    pairs, by the outcome of the first and then by that of the second.  Weights are added and
    multiplied as they are: floats may round, be infinite or be no numbers. -/
theorem convolve_adds_in_order (d e : Distribution W) :
    (∀ o, (d.convolve e).outcomes.count o =
      if ∃ x ∈ d.outcomes, ∃ y ∈ e.outcomes, x + y = o then 1 else 0) ∧
    (∀ o, (d.convolve e).weightOf o = (productsAt d e o).foldl (· + ·) Weight.zero) ∧
    d.convolve e =
      ofPairs (d.entries.flatMap fun x => e.entries.map fun y => (x.1 + y.1, x.2 * y.2)) := by
  refine ⟨fun o => ?_, weightOf_convolve d e, convolve_eq_ofPairs d e⟩
  rw [(d.convolve e).nodup_outcomes.count]
  simp only [mem_outcomes_convolve]

end Dice.Distribution
