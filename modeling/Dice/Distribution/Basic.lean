import Dice.Weight

namespace Dice

/-!
# Distributions of whole numbers

A distribution lists the outcomes that can happen in ascending order, each with its weight.

* `Distribution` — the list of entries, with the proof that its outcomes ascend.
* `Distribution.addAt` — adding weight to one outcome.
* `Distribution.ofPairs` — gathering weights that may name an outcome several times.
* `Distribution.ofLast` — the last weight named for each outcome.
* `Distribution.uniform`, `Distribution.shift` — a fair die, and moving every outcome.
-/

/-- Outcomes in ascending order, each with its weight. -/
structure Distribution (W : Type) where
  /-- The outcomes and their weights. -/
  entries : List (Int × W)
  /-- Every outcome is listed once, in ascending order. -/
  ascending : entries.Pairwise (fun a b => a.1 < b.1)

namespace Distribution

variable {W : Type}

/-- Distributions with equal entries are equal. -/
theorem ext_entries {d e : Distribution W} (h : d.entries = e.entries) : d = e := by
  cases d; cases e; cases h; rfl

/-- The distribution in which nothing can happen. -/
def empty : Distribution W := ⟨[], .nil⟩

instance : Inhabited (Distribution W) := ⟨empty⟩

/-- Distributions agree if they have the same outcomes and weights that compare equal. -/
instance [BEq W] : BEq (Distribution W) := ⟨fun d e => d.entries == e.entries⟩

/-! ### Gathering weights -/

section Gathering

variable [Weight W]

/-- Adds weight to an outcome.  An outcome not listed yet starts from zero. -/
@[specialize] def addAt (o : Int) (w : W) : List (Int × W) → List (Int × W)
  | [] => [(o, Weight.zero + w)]
  | (k, v) :: rest =>
    if o < k then (o, Weight.zero + w) :: (k, v) :: rest
    else if k < o then (k, v) :: addAt o w rest
    else (k, v + w) :: rest

/-- Adds the weights of pairs to their outcomes, one after the other. -/
@[specialize] def addAll (entries pairs : List (Int × W)) : List (Int × W) :=
  pairs.foldl (fun entries p => addAt p.1 p.2 entries) entries

/-- An entry of the result has the outcome that was added to, or one that was listed before. -/
theorem fst_mem_addAt {o : Int} {w : W} {entries : List (Int × W)} {e : Int × W}
    (h : e ∈ addAt o w entries) : e.1 = o ∨ ∃ e' ∈ entries, e'.1 = e.1 := by
  induction entries with
  | nil =>
    simp only [addAt, List.mem_singleton] at h
    exact .inl (h ▸ rfl)
  | cons head rest ih =>
    obtain ⟨k, v⟩ := head
    rw [addAt] at h
    split at h
    · rcases List.mem_cons.mp h with rfl | h
      · exact .inl rfl
      · exact .inr ⟨e, h, rfl⟩
    · split at h
      · rcases List.mem_cons.mp h with rfl | h
        · exact .inr ⟨(k, v), by simp, rfl⟩
        · rcases ih h with h | ⟨e', he', h⟩
          · exact .inl h
          · exact .inr ⟨e', by simp [he'], h⟩
      · rcases List.mem_cons.mp h with rfl | h
        · exact .inr ⟨(k, v), by simp, rfl⟩
        · exact .inr ⟨e, by simp [h], rfl⟩

/-- Adding weight keeps the outcomes ascending. -/
theorem ascending_addAt {o : Int} {w : W} {entries : List (Int × W)}
    (h : entries.Pairwise (fun a b => a.1 < b.1)) :
    (addAt o w entries).Pairwise (fun a b => a.1 < b.1) := by
  induction entries with
  | nil => simp [addAt]
  | cons head rest ih =>
    obtain ⟨k, v⟩ := head
    obtain ⟨hk, hrest⟩ := List.pairwise_cons.mp h
    rw [addAt]
    split
    · rename_i hok
      refine List.pairwise_cons.mpr ⟨fun e he => ?_, h⟩
      rcases List.mem_cons.mp he with rfl | he
      · exact hok
      · exact Int.lt_trans hok (hk e he)
    · split
      · rename_i hko
        refine List.pairwise_cons.mpr ⟨fun e he => ?_, ih hrest⟩
        rcases fst_mem_addAt he with h | ⟨e', he', h⟩
        · exact h ▸ hko
        · exact h ▸ hk e' he'
      · exact List.pairwise_cons.mpr ⟨hk, hrest⟩

/-- Adding many weights keeps the outcomes ascending. -/
theorem ascending_addAll {entries pairs : List (Int × W)}
    (h : entries.Pairwise (fun a b => a.1 < b.1)) :
    (addAll entries pairs).Pairwise (fun a b => a.1 < b.1) := by
  induction pairs generalizing entries with
  | nil => exact h
  | cons p pairs ih => exact ih (ascending_addAt h)

/-- The distribution that gathers pairs of an outcome and a weight.  The weights of an outcome are
    added up in the order of the pairs. -/
def ofPairs (pairs : List (Int × W)) : Distribution W :=
  ⟨addAll [] pairs, ascending_addAll .nil⟩

end Gathering

/-! ### Keeping one weight -/

/-- Lists an outcome with a weight, unless the outcome is listed already. -/
@[specialize] def insertNew (o : Int) (w : W) : List (Int × W) → List (Int × W)
  | [] => [(o, w)]
  | (k, v) :: rest =>
    if o < k then (o, w) :: (k, v) :: rest
    else if k < o then (k, v) :: insertNew o w rest
    else (k, v) :: rest

/-- Only the new entry is added. -/
theorem mem_insertNew {o : Int} {w : W} {entries : List (Int × W)} {e : Int × W}
    (h : e ∈ insertNew o w entries) : e = (o, w) ∨ e ∈ entries := by
  induction entries with
  | nil => simpa [insertNew] using h
  | cons head rest ih =>
    obtain ⟨k, v⟩ := head
    rw [insertNew] at h
    split at h
    · exact List.mem_cons.mp h
    · split at h
      · rcases List.mem_cons.mp h with rfl | h
        · exact .inr (by simp)
        · exact (ih h).imp_right (List.mem_cons_of_mem _)
      · exact .inr h

/-- A new entry is put where the order of the outcomes stays ascending. -/
theorem ascending_insertNew {o : Int} {w : W} {entries : List (Int × W)}
    (h : entries.Pairwise (fun a b => a.1 < b.1)) :
    (insertNew o w entries).Pairwise (fun a b => a.1 < b.1) := by
  induction entries with
  | nil => simp [insertNew]
  | cons head rest ih =>
    obtain ⟨k, v⟩ := head
    obtain ⟨hk, hrest⟩ := List.pairwise_cons.mp h
    rw [insertNew]
    split
    · rename_i hok
      refine List.pairwise_cons.mpr ⟨fun e he => ?_, h⟩
      rcases List.mem_cons.mp he with rfl | he
      · exact hok
      · exact Int.lt_trans hok (hk e he)
    · split
      · rename_i hko
        refine List.pairwise_cons.mpr ⟨fun e he => ?_, ih hrest⟩
        rcases mem_insertNew he with rfl | he
        · exact hko
        · exact hk e he
      · exact h

/-- The entries that keep the last weight named for each outcome. -/
def lastEntries (pairs : List (Int × W)) : List (Int × W) :=
  pairs.foldr (fun p entries => insertNew p.1 p.2 entries) []

/-- The distribution in which each outcome has the last weight that the pairs name for it. -/
def ofLast (pairs : List (Int × W)) : Distribution W where
  entries := lastEntries pairs
  ascending := by
    induction pairs with
    | nil => exact .nil
    | cons p pairs ih => exact ascending_insertNew ih

/-! ### Dice and offsets -/

/-- The weight of each face of a fair die. -/
def faceWeight [Weight W] (faces : Nat) : W :=
  Weight.ofInt 1 / Weight.ofInt faces

/-- Faces from 1 on, each with the same weight. -/
def faceEntries (faces : Nat) (w : W) : List (Int × W) :=
  (List.range' 1 faces).map fun face : Nat => ((face : Int), w)

/-- A fair die: faces from 1 on, each with an equal share of the whole. -/
def uniform [Weight W] (faces : Nat) : Distribution W where
  entries := faceEntries faces (faceWeight faces)
  ascending := (List.pairwise_lt_range' ..).map _ fun _ _ h => Int.ofNat_lt.mpr h

/-- The same weights with every outcome moved by an offset. -/
def shift (offset : Int) (d : Distribution W) : Distribution W where
  entries := d.entries.map fun e => (e.1 + offset, e.2)
  ascending := d.ascending.map _ fun _ _ h => Int.add_lt_add_right h offset

end Distribution

end Dice
