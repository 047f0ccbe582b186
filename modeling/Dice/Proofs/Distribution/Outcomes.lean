import Dice.Law
import Mathlib.Algebra.Order.Ring.Int
import Mathlib.Data.Int.Range
import Mathlib.Data.List.Nodup
import Mathlib.Data.List.Sort
import Mathlib.Tactic.Ring

namespace Dice

/-!
# Which outcomes can happen

The outcomes that a distribution lists, for any kind of weight: no weight decides whether an outcome
is listed, so these are facts about floating-point laws as well.

* `Distribution.mem_outcomes_convolve` — the outcomes of a sum are the sums of outcomes.
* `Distribution.weightOf_mem_entries` — a listed outcome weighs what its entry says.
* `Distribution.ext_weightOf` — distributions are equal if their outcomes and weights are.
* `Distribution.outcomes_eq_range` — outcomes without gaps are listed as the numbers between two
  bounds, one after the other.
* `Pool.mem_outcomes_totals` — the totals of a pool are all numbers between its bounds.
* `Pool.outcomes_law_eq_range` — the totals that a law lists, in their order, and its bounds.
-/

namespace Distribution

variable {W : Type}

/-! ### Entries -/

/-- An outcome is listed if it has an entry. -/
theorem mem_outcomes {d : Distribution W} {o : Int} :
    o ∈ d.outcomes ↔ ∃ w, (o, w) ∈ d.entries := by
  simp [outcomes]

/-- Every outcome is listed once. -/
theorem nodup_outcomes (d : Distribution W) : d.outcomes.Nodup :=
  d.ascending.map _ fun _ _ h => Int.ne_of_lt h

/-- An outcome is listed with one weight only. -/
theorem eq_of_mem_entries {d : Distribution W} {o : Int} {v w : W} (hv : (o, v) ∈ d.entries)
    (hw : (o, w) ∈ d.entries) : v = w :=
  congrArg Prod.snd (List.inj_on_of_nodup_map d.nodup_outcomes hv hw rfl)

section Weighing

variable [Weight W]

/-- The weight of a listed outcome is the one that it is listed with. -/
theorem weightOf_mem_entries {d : Distribution W} {o : Int} (h : o ∈ d.outcomes) :
    (o, d.weightOf o) ∈ d.entries := by
  obtain ⟨w, hw⟩ := mem_outcomes.mp h
  unfold weightOf
  cases hfind : d.entries.find? (fun e => e.1 == o) with
  | none =>
    -- The search passes over no entry of the outcome.
    have hno := List.find?_eq_none.mp hfind (o, w) hw
    simp at hno
  | some e =>
    have hkey : e.1 = o := by simpa using List.find?_some hfind
    have hmem : e ∈ d.entries := List.mem_of_find?_eq_some hfind
    rw [← hkey]
    exact hmem

/-- The weight of an outcome is that of its entry. -/
theorem weightOf_eq {d : Distribution W} {o : Int} {w : W} (h : (o, w) ∈ d.entries) :
    d.weightOf o = w :=
  eq_of_mem_entries (weightOf_mem_entries (mem_outcomes.mpr ⟨w, h⟩)) h

/-- What cannot happen weighs nothing. -/
theorem weightOf_of_not_mem {d : Distribution W} {o : Int} (h : o ∉ d.outcomes) :
    d.weightOf o = Weight.zero := by
  have hfind : d.entries.find? (fun e => e.1 == o) = none := by
    refine List.find?_eq_none.mpr fun e he hkey => h (mem_outcomes.mpr ⟨e.2, ?_⟩)
    rw [← (by simpa using hkey : e.1 = o)]
    exact he
  rw [weightOf, hfind]

/-- The entries are the outcomes in their order, each with its weight. -/
theorem entries_eq_map (d : Distribution W) :
    d.entries = d.outcomes.map fun o => (o, d.weightOf o) := by
  have hentry : ∀ e ∈ d.entries, (e.1, d.weightOf e.1) = e := by
    rintro ⟨o, w⟩ he
    rw [weightOf_eq he]
  rw [outcomes, List.map_map]
  exact (List.map_id _).symm.trans (List.map_congr_left fun e he => (hentry e he).symm)

/-! ### Gathering -/

/-- Adding weight to an outcome lists it, and no other one. -/
theorem mem_fst_addAt {o k : Int} {w : W} {entries : List (Int × W)} :
    o ∈ (addAt k w entries).map (·.1) ↔ o = k ∨ o ∈ entries.map (·.1) := by
  induction entries with
  | nil => simp [addAt]
  | cons head rest ih =>
    obtain ⟨j, v⟩ := head
    rw [addAt]
    split
    · simp
    · split
      · rw [List.map_cons, List.mem_cons, ih, List.map_cons, List.mem_cons]
        tauto
      · -- The weight goes to the entry that is there already.
        have hj : j = k := by omega
        simp [hj]

/-- Gathering lists the outcomes listed before and those of the pairs. -/
theorem mem_fst_addAll {o : Int} {entries pairs : List (Int × W)} :
    o ∈ (addAll entries pairs).map (·.1) ↔ o ∈ entries.map (·.1) ∨ o ∈ pairs.map (·.1) := by
  induction pairs generalizing entries with
  | nil => simp [addAll]
  | cons p pairs ih =>
    show o ∈ (addAll (addAt p.1 p.2 entries) pairs).map (·.1) ↔ _
    rw [ih, mem_fst_addAt, List.map_cons, List.mem_cons]
    tauto

/-- The outcomes of a sum are the sums of outcomes. -/
theorem mem_outcomes_convolve {d e : Distribution W} {o : Int} :
    o ∈ (d.convolve e).outcomes ↔ ∃ x ∈ d.outcomes, ∃ y ∈ e.outcomes, x + y = o := by
  -- How the rows are merged plays no part here, only which pairs they are made of.
  rw [convolve_eq_ofPairs]
  show o ∈ (addAll [] (sumPairs d.entries e.entries)).map (·.1) ↔ _
  rw [mem_fst_addAll]
  simp [sumPairs, sumRow, outcomes]

/-- One die shows the numbers of its faces. -/
theorem mem_outcomes_uniform {faces : Nat} {o : Int} :
    o ∈ (uniform faces : Distribution W).outcomes ↔ 1 ≤ o ∧ o ≤ faces := by
  simp only [outcomes, uniform, faceEntries, List.map_map, List.mem_map, List.mem_range'_1,
    Function.comp_apply]
  constructor
  · rintro ⟨face, hface, rfl⟩
    omega
  · rintro ⟨hlow, hhigh⟩
    exact ⟨o.toNat, by omega, by omega⟩

/-- Every face has its share of the whole. -/
theorem weightOf_uniform {faces : Nat} {o : Int} (h : o ∈ (uniform faces : Distribution W).outcomes) :
    (uniform faces : Distribution W).weightOf o = faceWeight faces := by
  obtain ⟨w, hw⟩ := mem_outcomes.mp h
  obtain ⟨face, -, hface⟩ := List.mem_map.mp hw
  rw [weightOf_eq hw]
  exact (congrArg Prod.snd hface).symm

end Weighing

/-- An outcome is listed after an offset if it was listed without it. -/
theorem mem_outcomes_shift {d : Distribution W} {offset o : Int} :
    o ∈ (d.shift offset).outcomes ↔ o - offset ∈ d.outcomes := by
  simp only [outcomes, shift, List.map_map, List.mem_map, Function.comp_apply]
  constructor
  · rintro ⟨e, he, rfl⟩
    exact ⟨e, he, by omega⟩
  · rintro ⟨e, he, h⟩
    exact ⟨e, he, by omega⟩

/-! ### Outcomes without gaps -/

/-- Outcomes are listed in ascending order. -/
theorem ascending_outcomes (d : Distribution W) : d.outcomes.Pairwise (· < ·) :=
  d.ascending.map _ fun _ _ h => h

/-- Ranges ascend. -/
theorem pairwise_lt_range (a b : Int) : (Int.range a b).Pairwise (· < ·) :=
  List.pairwise_lt_range.map _ fun _ _ h => Int.add_lt_add_left (Int.ofNat_lt.mpr h) a

/-- Distributions with the same outcomes and the same weights are equal. -/
theorem ext_weightOf [Weight W] {d e : Distribution W} (hmem : ∀ o, o ∈ d.outcomes ↔ o ∈ e.outcomes)
    (hweight : ∀ o, d.weightOf o = e.weightOf o) : d = e := by
  have houtcomes : d.outcomes = e.outcomes :=
    d.ascending_outcomes.eq_of_mem_iff e.ascending_outcomes hmem
  refine ext_entries ?_
  rw [d.entries_eq_map, e.entries_eq_map, houtcomes]
  exact List.map_congr_left fun o _ => by rw [hweight o]

/-- If exactly the numbers between two bounds can happen, they are listed one after the other. -/
theorem outcomes_eq_range {d : Distribution W} {a b : Int}
    (h : ∀ o, o ∈ d.outcomes ↔ a ≤ o ∧ o ≤ b) : d.outcomes = Int.range a (b + 1) := by
  -- Both lists ascend, so it is enough that they have the same members.
  refine d.ascending_outcomes.eq_of_mem_iff (pairwise_lt_range a (b + 1)) fun o => ?_
  rw [h, Int.mem_range_iff, Int.lt_add_one_iff]

/-- The ends of a list of consecutive outcomes are its bounds, and its length is their distance,
    both ends counted. -/
theorem ends_of_outcomes_eq_range {d : Distribution W} {a : Int} {n : Nat}
    (h : d.outcomes = Int.range a (a + n + 1)) :
    d.least? = some a ∧ d.greatest? = some (a + n) ∧ d.size = n + 1 := by
  have hlength : (a + n + 1 - a).toNat = n + 1 := by omega
  have hlist : d.outcomes = (List.range (n + 1)).map fun k : Nat => a + (k : Int) := by
    rw [h, Int.range, hlength]
  refine ⟨?_, ?_, ?_⟩
  · have hleast : d.least? = d.outcomes.head? := by rw [least?, outcomes, List.head?_map]
    rw [hleast, hlist, List.head?_map, List.head?_range]
    simp
  · have hgreatest : d.greatest? = d.outcomes.getLast? := by
      rw [greatest?, outcomes, List.getLast?_map]
    rw [hgreatest, hlist, List.getLast?_map, List.getLast?_range]
    simp
  · have hsize : d.size = d.outcomes.length := by rw [size, outcomes, List.length_map]
    rw [hsize, hlist, List.length_map, List.length_range]

end Distribution

namespace Pool

variable {W : Type} [Weight W]

/-- Some dice together show all numbers from one for each die to the last face of each. -/
theorem mem_outcomes_sumOfDice {faces count : Nat} (hf : 1 ≤ faces) {o : Int} :
    o ∈ (sumOfDice faces (count + 1) : Distribution W).outcomes ↔
      (count + 1 : Int) ≤ o ∧ o ≤ (count + 1) * faces := by
  induction count generalizing o with
  | zero => simp [Distribution.mem_outcomes_uniform]
  | succ count ih =>
    -- The product with the number of dice is opened here, the rest is linear.
    have hsplit : ((count + 1 : Nat) + 1 : Int) * faces = (count + 1) * faces + faces := by
      push_cast
      ring
    have hleast : (count + 1 : Int) ≤ (count + 1) * faces :=
      le_mul_of_one_le_right (by omega) (by omega)
    rw [sumOfDice_succ, Distribution.mem_outcomes_convolve, hsplit]
    simp only [ih, Distribution.mem_outcomes_uniform]
    push_cast
    constructor
    · rintro ⟨x, hx, y, hy, rfl⟩
      omega
    · rintro ⟨hlow, hhigh⟩
      -- The new die shows what the others, all at one, leave, unless that is more than it can.
      by_cases ho : o - (count + 1) ≤ faces
      · exact ⟨count + 1, ⟨le_refl _, hleast⟩, o - (count + 1), by omega, by omega⟩
      · exact ⟨o - faces, by omega, faces, by omega, by omega⟩

/-- The totals of a pool with dice and faces are all numbers between its bounds. -/
theorem mem_outcomes_totals {p : Pool} (hc : 1 ≤ p.count.toNat) (hf : 1 ≤ p.faces.toNat) {o : Int} :
    o ∈ (p.totals : Distribution W).outcomes ↔ p.lowest ≤ o ∧ o ≤ p.highest := by
  obtain ⟨count, hcount⟩ := Nat.exists_eq_add_of_le' hc
  rw [totals, Distribution.mem_outcomes_shift, hcount, mem_outcomes_sumOfDice hf, lowest, highest,
    hcount]
  push_cast
  omega

/-- The bounds of a pool are as far apart as its dice together have faces beyond their first. -/
theorem highest_eq_lowest_add {p : Pool} (hf : 1 ≤ p.faces.toNat) :
    p.highest = p.lowest + (p.count.toNat * (p.faces.toNat - 1) : Nat) := by
  obtain ⟨faces, hfaces⟩ : ∃ faces, p.faces.toNat = faces + 1 := ⟨p.faces.toNat - 1, by omega⟩
  rw [highest, lowest, hfaces, Nat.add_sub_cancel]
  push_cast
  ring

/-- The law of a pool with dice and faces lists the consecutive numbers from its lowest to its
    highest bound, in ascending order, whatever their weights are.  So the least and the greatest
    outcome are the bounds, and there is one outcome more than the dice have faces beyond their
    first. -/
theorem outcomes_law_eq_range (p : Pool) (hc : 1 ≤ p.count.toNat) (hf : 1 ≤ p.faces.toNat) :
    (p.law : Law W).distribution.outcomes =
      Int.range (p.law : Law W).lowest ((p.law : Law W).highest + 1) ∧
    (p.law : Law W).distribution.least? = some (p.law : Law W).lowest ∧
    (p.law : Law W).distribution.greatest? = some (p.law : Law W).highest ∧
    (p.law : Law W).distribution.size = p.count.toNat * (p.faces.toNat - 1) + 1 := by
  show (p.totals : Distribution W).outcomes = Int.range p.lowest (p.highest + 1) ∧
    (p.totals : Distribution W).least? = some p.lowest ∧
    (p.totals : Distribution W).greatest? = some p.highest ∧
    (p.totals : Distribution W).size = p.count.toNat * (p.faces.toNat - 1) + 1
  have hlist : (p.totals : Distribution W).outcomes = Int.range p.lowest (p.highest + 1) :=
    Distribution.outcomes_eq_range fun o => mem_outcomes_totals hc hf
  refine ⟨hlist, ?_⟩
  rw [highest_eq_lowest_add hf] at hlist ⊢
  exact Distribution.ends_of_outcomes_eq_range hlist

/-- Two dice of four faces, less three, list the seven totals from one below zero to five. -/
theorem outcomes_law_twoDice :
    1 ≤ (⟨2, .unique, 4, -3⟩ : Pool).count.toNat ∧ 1 ≤ (⟨2, .unique, 4, -3⟩ : Pool).faces.toNat ∧
      (law ⟨2, .unique, 4, -3⟩ : Law Float).distribution.outcomes = [-1, 0, 1, 2, 3, 4, 5] ∧
      (law ⟨2, .unique, 4, -3⟩ : Law Float).distribution.size = 7 := by
  obtain ⟨hlist, -, -, hsize⟩ :=
    outcomes_law_eq_range (W := Float) ⟨2, .unique, 4, -3⟩ (by decide) (by decide)
  exact ⟨by decide, by decide, hlist.trans (by decide), hsize.trans (by decide)⟩

end Pool

end Dice
