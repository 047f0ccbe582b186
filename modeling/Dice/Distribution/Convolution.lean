import Dice.Distribution.Basic

namespace Dice.Distribution

/-!
# Adding independent outcomes

The distribution of the sum of two independent outcomes gathers, for every pair of outcomes, the
product of their weights at the sum of the outcomes.  Since both distributions ascend, the sums
with one outcome of the first come in ascending order, and those with the next outcome start
higher.  So the sums are merged row by row, and whatever lies below the next row is finished.

* `sumPairs` — all pairs of outcomes, summed, in the order in which they are gathered.
* `merge`, `mergeRows` — one row, and all rows.
* `convolve` — the distribution of the sum.
* `convolve_eq_ofPairs` — merging gathers exactly `sumPairs`.
-/

variable {W : Type} [Weight W]

/-- The sums of one outcome with every outcome of a distribution. -/
@[specialize] def sumRow (x : Int × W) (ys : List (Int × W)) : List (Int × W) :=
  ys.map fun y => (x.1 + y.1, x.2 * y.2)

/-- The sums of all pairs of outcomes: ascending in the outcome of the first distribution, then in
    that of the second. -/
def sumPairs (xs ys : List (Int × W)) : List (Int × W) :=
  xs.flatMap fun x => sumRow x ys

/-- Merges an ascending row into a list that starts with the entry `(k, v)` and goes on as `tail`
    merges what is left of the row. -/
@[specialize] def mergeHead (k : Int) (v : W) (tail : List (Int × W) → List (Int × W)) :
    List (Int × W) → List (Int × W)
  | [] => (k, v) :: tail []
  | (o, w) :: row =>
    if o < k then (o, Weight.zero + w) :: mergeHead k v tail row
    else if k < o then (k, v) :: tail ((o, w) :: row)
    else (k, v + w) :: tail row

/-- Merges an ascending row into an ascending list, adding the weights of equal outcomes. -/
@[specialize] def merge : List (Int × W) → List (Int × W) → List (Int × W)
  | [] => fun row => row.map fun e => (e.1, Weight.zero + e.2)
  | (k, v) :: rest => mergeHead k v (merge rest)

/-- Merges the rows of all outcomes of the first distribution into a list.  The outcomes below the
    first sum of a row are in their final place and are not looked at again. -/
@[specialize] def mergeRows (first : Int) (ys : List (Int × W)) :
    List (Int × W) → List (Int × W) → List (Int × W)
  | [], pending => pending
  | x :: xs, pending =>
    pending.takeWhile (fun e => e.1 < x.1 + first) ++
      mergeRows first ys xs
        (merge (pending.dropWhile fun e => e.1 < x.1 + first) (sumRow x ys))

/-- The sums of all pairs of outcomes, gathered. -/
@[specialize] def sumEntries (xs ys : List (Int × W)) : List (Int × W) :=
  match ys with
  | [] => []
  | y :: _ => mergeRows y.1 ys xs []

/-! ### Merging gathers -/

/-- Pairs are added one after the other. -/
theorem addAll_append (entries ps qs : List (Int × W)) :
    addAll entries (ps ++ qs) = addAll (addAll entries ps) qs := by
  simp [addAll]

/-- An entry below all pairs stays where it is. -/
theorem addAll_cons_of_lt {k : Int} {v : W} {entries pairs : List (Int × W)}
    (h : ∀ p ∈ pairs, k < p.1) :
    addAll ((k, v) :: entries) pairs = (k, v) :: addAll entries pairs := by
  induction pairs generalizing entries with
  | nil => rfl
  | cons p pairs ih =>
    have hp : k < p.1 := h p (by simp)
    have hk : addAt p.1 p.2 ((k, v) :: entries) = (k, v) :: addAt p.1 p.2 entries := by
      rw [addAt, if_neg (by omega), if_pos hp]
    show addAll (addAt p.1 p.2 ((k, v) :: entries)) pairs = _
    rw [hk, ih fun q hq => h q (by simp [hq])]
    rfl

/-- Entries below all pairs stay where they are. -/
theorem addAll_append_of_lt {done entries pairs : List (Int × W)}
    (h : ∀ e ∈ done, ∀ p ∈ pairs, e.1 < p.1) :
    addAll (done ++ entries) pairs = done ++ addAll entries pairs := by
  induction done with
  | nil => rfl
  | cons e done ih =>
    obtain ⟨k, v⟩ := e
    rw [List.cons_append, addAll_cons_of_lt (h (k, v) (by simp)),
      ih fun e he => h e (by simp [he])]
    rfl

/-- Pairs in ascending order are listed as they are, each weight added to nothing. -/
theorem addAll_nil_of_ascending {row : List (Int × W)}
    (h : row.Pairwise (fun a b => a.1 < b.1)) :
    addAll [] row = row.map fun e => (e.1, Weight.zero + e.2) := by
  induction row with
  | nil => rfl
  | cons e row ih =>
    obtain ⟨he, hrow⟩ := List.pairwise_cons.mp h
    show addAll [(e.1, Weight.zero + e.2)] row = _
    rw [addAll_cons_of_lt he, ih hrow, List.map_cons]

/-- Merging an ascending row gathers its entries. -/
theorem merge_eq_addAll (entries : List (Int × W)) {row : List (Int × W)}
    (h : row.Pairwise (fun a b => a.1 < b.1)) :
    merge entries row = addAll entries row := by
  induction entries generalizing row with
  | nil => rw [merge, addAll_nil_of_ascending h]
  | cons e rest ih =>
    obtain ⟨k, v⟩ := e
    rw [merge]
    induction row with
    | nil => rw [mergeHead, ih h]; rfl
    | cons p row ihrow =>
      obtain ⟨o, w⟩ := p
      obtain ⟨ho, hrow⟩ := List.pairwise_cons.mp h
      rw [mergeHead]
      show _ = addAll (addAt o w ((k, v) :: rest)) row
      rw [addAt]
      split
      · rw [ihrow hrow, addAll_cons_of_lt ho]
      · split
        · rename_i hok hko
          have hlt : ∀ p ∈ row, k < p.1 := fun p hp => Int.lt_trans hko (ho p hp)
          rw [ih h, addAll_cons_of_lt hlt]
          rfl
        · rename_i hok hko
          have hlt : ∀ p ∈ row, k < p.1 := fun p hp => by
            have hp : o < p.1 := ho p hp
            omega
          rw [ih hrow, addAll_cons_of_lt hlt]

/-- The sums of one outcome with ascending ones ascend. -/
theorem ascending_sumRow (x : Int × W) {ys : List (Int × W)}
    (h : ys.Pairwise (fun a b => a.1 < b.1)) :
    (sumRow x ys).Pairwise (fun a b => a.1 < b.1) :=
  h.map _ fun _ _ hab => Int.add_lt_add_left hab x.1

omit [Weight W] in
/-- The entries taken while they are below a bound are below it. -/
theorem fst_of_mem_takeWhile {bound : Int} {entries : List (Int × W)} {e : Int × W}
    (h : e ∈ entries.takeWhile fun e => decide (e.1 < bound)) : e.1 < bound := by
  induction entries with
  | nil => simp at h
  | cons head rest ih =>
    by_cases hd : head.1 < bound
    · rw [List.takeWhile_cons_of_pos (by simpa using hd), List.mem_cons] at h
      rcases h with rfl | h
      · exact hd
      · exact ih h
    · rw [List.takeWhile_cons_of_neg (by simpa using hd)] at h
      simp at h

/-- Merging all rows gathers all sums. -/
theorem mergeRows_eq_addAll {y : Int × W} {ys xs : List (Int × W)}
    (hy : (y :: ys).Pairwise (fun a b => a.1 < b.1)) (hx : xs.Pairwise (fun a b => a.1 < b.1))
    (pending : List (Int × W)) :
    mergeRows y.1 (y :: ys) xs pending = addAll pending (sumPairs xs (y :: ys)) := by
  induction xs generalizing pending with
  | nil => rfl
  | cons x xs ih =>
    obtain ⟨hxs, hxs'⟩ := List.pairwise_cons.mp hx
    have hle : ∀ z ∈ y :: ys, y.1 ≤ z.1 := fun z hz => by
      rcases List.mem_cons.mp hz with rfl | hz
      · exact Int.le_refl _
      · exact Int.le_of_lt ((List.pairwise_cons.mp hy).1 z hz)
    have hbound : ∀ p ∈ sumPairs (x :: xs) (y :: ys), x.1 + y.1 ≤ p.1 := fun p hp => by
      obtain ⟨x', hx', hp⟩ := List.mem_flatMap.mp hp
      obtain ⟨z, hz, rfl⟩ := List.mem_map.mp hp
      have hz := hle z hz
      rcases List.mem_cons.mp hx' with rfl | hx'
      · simp only; omega
      · have := hxs x' hx'
        simp only; omega
    have hsplit := List.takeWhile_append_dropWhile (p := fun e => decide (e.1 < x.1 + y.1))
      (l := pending)
    rw [mergeRows, ih hxs', merge_eq_addAll _ (ascending_sumRow x hy), ← addAll_append]
    show _ ++ addAll _ (sumPairs (x :: xs) (y :: ys)) = _
    rw [← addAll_append_of_lt, hsplit]
    intro e he p hp
    have he : e.1 < x.1 + y.1 := fst_of_mem_takeWhile he
    have hp := hbound p hp
    omega

/-- Merging the rows of sums adds up the same pairs as adding them one after the other. -/
theorem sumEntries_eq_addAll {xs ys : List (Int × W)}
    (hx : xs.Pairwise (fun a b => a.1 < b.1)) (hy : ys.Pairwise (fun a b => a.1 < b.1)) :
    sumEntries xs ys = addAll [] (sumPairs xs ys) := by
  cases ys with
  | nil =>
    have h : sumPairs xs ([] : List (Int × W)) = [] := by simp [sumPairs, sumRow]
    rw [h]; rfl
  | cons y ys => exact mergeRows_eq_addAll hy hx []

/-- The distribution of the sum of two independent outcomes. -/
def convolve (d e : Distribution W) : Distribution W where
  entries := sumEntries d.entries e.entries
  ascending := by
    rw [sumEntries_eq_addAll d.ascending e.ascending]
    exact ascending_addAll .nil

/-- The distribution of the sum gathers all pairs of outcomes. -/
theorem convolve_eq_ofPairs (d e : Distribution W) :
    d.convolve e = ofPairs (sumPairs d.entries e.entries) :=
  ext_entries (sumEntries_eq_addAll d.ascending e.ascending)

end Dice.Distribution
