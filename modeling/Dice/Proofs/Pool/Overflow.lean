import Dice.Proofs.Json.Laws
import Dice.Proofs.Notation.Grammar
import Dice.Proofs.Random.Fairness

namespace Dice

open Dice.Notation Dice.Random

/-!
# Where totals overflow

Notation admits any words of 32 bits for the dice and their faces, and the product of two of them
may be twice as great as a signed word of 64 bits holds.  So a pool has its least total in such a
word, but not always its greatest.

* `Pool.computes_lowest?`, `Pool.highest?_eq_some_iff` — the bounds.
* `Pool.fitsWord_of_le` — few dice or few faces do not overflow.
* `Pool.exists_overflow_iff` — a roll may overflow exactly if the greatest total does not fit.
* `Pool.roll?_of_law_in_memory` — a pool whose totals can all be listed does not overflow.
* `Pool.totals_in_words` — all of this for the pools of accepted texts.
-/

namespace Pool

/-! ### Bounds in words -/

/-- The least total is computed as the sum of two words. -/
theorem computes_lowest? (p : Pool) : Computes p.lowest? p.lowest := by
  simpa [lowest?, lowest] using computes_addWords? (wide p.count) p.offset.toInt64

/-- The greatest total is found if it fits, and if the product of the dice and their faces fits
    too. -/
theorem highest?_eq_some_iff {p : Pool} {w : Int64} :
    p.highest? = some w ↔ FitsWord (p.count.toNat * p.faces.toNat) ∧ w.toInt = p.highest := by
  have hproduct : Computes (mulWords? (wide p.count) (wide p.faces))
      (p.count.toNat * p.faces.toNat) := by
    simpa using computes_mulWords? (wide p.count) (wide p.faces)
  have hsum : ∀ product : Int64, Computes (addWords? product p.offset.toInt64)
      (product.toInt + p.offset.toInt) := fun product => by
    simpa using computes_addWords? product p.offset.toInt64
  show (mulWords? (wide p.count) (wide p.faces)).bind _ = some w ↔ _
  rw [Option.bind_eq_some_iff, fitsWord_iff, ← exists_and_right]
  refine exists_congr fun product => ?_
  rw [hproduct product]
  refine and_congr_right fun hvalue => ?_
  rw [highest, ← hvalue]
  exact hsum product w

/-- There is no greatest total in a word if it does not fit, or if the product does not. -/
theorem highest?_eq_none_iff {p : Pool} :
    p.highest? = none ↔
      ¬ (FitsWord (p.count.toNat * p.faces.toNat) ∧ FitsWord p.highest) := by
  rw [Option.eq_none_iff_forall_ne_some, fitsWord_iff (n := p.highest), ← exists_and_left,
    not_exists]
  exact forall_congr' fun _ => not_congr highest?_eq_some_iff

/-- The offset is added last, and cannot mend a product that overflows. -/
example :
    FitsWord (highest ⟨3037000500, .standard, 3037000500, -2147483647⟩) ∧
      highest? ⟨3037000500, .standard, 3037000500, -2147483647⟩ = none := by decide +kernel

/-- With at most `2 ^ 31` dice, or with at most as many faces, the greatest total fits, and so does
    the product of both. -/
theorem fitsWord_of_le {p : Pool} (h : p.count.toNat ≤ 2 ^ 31 ∨ p.faces.toNat ≤ 2 ^ 31) :
    FitsWord (p.count.toNat * p.faces.toNat) ∧ FitsWord p.highest := by
  have hcount : p.count.toNat ≤ 2 ^ 32 - 1 := Nat.le_pred_of_lt p.count.toNat_lt
  have hfaces : p.faces.toNat ≤ 2 ^ 32 - 1 := Nat.le_pred_of_lt p.faces.toNat_lt
  have hlow := p.offset.le_toInt
  have hhigh := p.offset.toInt_lt
  have hproduct : p.count.toNat * p.faces.toNat ≤ 2 ^ 63 - 2 ^ 31 := by
    rcases h with hfew | hfew
    · exact (Nat.mul_le_mul hfew hfaces).trans (by decide)
    · exact (Nat.mul_le_mul hcount hfew).trans (by decide)
  rw [fitsWord_iff_between, fitsWord_iff_between, highest, ← Nat.cast_mul]
  omega

/-! ### Totals in words -/

/-- A roll may overflow exactly if the greatest total does not fit. -/
theorem exists_overflow_iff {p : Pool} (hc : 1 ≤ p.count.toNat) (hf : 1 ≤ p.faces.toNat) :
    (∃ (words rest : List UInt32) (r : Roll),
      p.roll words = .ok (r, rest) ∧ p.total? r.faces = none) ↔ ¬ FitsWord p.highest := by
  constructor
  · rintro ⟨words, rest, r, hroll, hnone⟩ hfits
    exact (computes_total?_of_roll hroll).eq_none_iff.mp hnone (fitsWord_total_of_roll hroll hfits)
  · intro hfits
    -- Some words give every die its last face.
    have hmem : p.highest ∈ (p.totals : Distribution Rat).outcomes := by
      rw [mem_outcomes_totals hc hf, highest_eq_lowest_add hf]
      omega
    have hfaces : p.faces ≠ 0 := by
      intro h
      simp [h] at hf
    obtain ⟨words, drawn, hdrawn, htotal⟩ := exists_drawn_of_mem_outcomes hc hf hmem
    have hroll : p.roll words = .ok (.ofFaces p drawn, []) := by
      rw [roll_eq_of_faces hfaces, hdrawn]
    refine ⟨words, [], _, hroll, (computes_total?_of_roll hroll).eq_none_iff.mpr ?_⟩
    show ¬ FitsWord (p.offset.toInt + faceSum drawn)
    rwa [htotal]

/-- A pool whose law fits in memory does not overflow: it is rolled in words as it is rolled. -/
theorem roll?_of_law_in_memory {S : Type} [WordSource S] {p : Pool} (hc : 1 ≤ p.count.toNat)
    (hf : 1 ≤ p.faces.toNat)
    (hmemory : 16 * (p.law : Law Float).distribution.size < UInt64.size) (s : S) :
    p.roll? s = some (p.roll s) := by
  have hle : p.lowest ≤ p.highest := by
    rw [highest_eq_lowest_add hf]
    omega
  exact roll?_eq_some_roll (isSigned_of_between hc hf hmemory hle le_rfl)

/-- What is computed in words of a pool that is read.  The least total is always found.  The
    greatest is exact where it is found, and it is found if it fits and the product of the dice and
    their faces fits too; with at most `2 ^ 31` dice, or at most as many faces, both do.  The total
    of a roll is exact where it is found, and it is found if it fits.  Some roll overflows exactly
    if the greatest total does not fit. -/
theorem totals_in_words {text : String} {p : Pool} (h : Pool.read text = .ok p) :
    (∃ w, p.lowest? = some w ∧ w.toInt = p.lowest) ∧
    (∀ w, p.highest? = some w → w.toInt = p.highest) ∧
    (p.highest? = none ↔
      ¬ (FitsWord (p.count.toNat * p.faces.toNat) ∧ FitsWord p.highest)) ∧
    (p.count.toNat ≤ 2 ^ 31 ∨ p.faces.toNat ≤ 2 ^ 31 →
      FitsWord (p.count.toNat * p.faces.toNat) ∧ FitsWord p.highest) ∧
    (∀ (S : Type) [WordSource S] (s s' : S) (r : Roll), p.roll s = .ok (r, s') →
      (∀ w, p.total? r.faces = some w → w.toInt = r.total) ∧
      (p.total? r.faces = none ↔ ¬ FitsWord r.total)) ∧
    ((∃ (words rest : List UInt32) (r : Roll),
      p.roll words = .ok (r, rest) ∧ p.total? r.faces = none) ↔ ¬ FitsWord p.highest) := by
  obtain ⟨hc, hf⟩ := positive_of_readChars h
  refine ⟨?_, fun w hw => (highest?_eq_some_iff.mp hw).2, highest?_eq_none_iff, fitsWord_of_le,
    fun S _ s s' r hroll => ?_, exists_overflow_iff hc hf⟩
  · obtain ⟨w, hw⟩ := fitsWord_iff.mp p.fitsWord_lowest
    exact ⟨w, (p.computes_lowest? w).mpr hw, hw⟩
  · have htotal := computes_total?_of_roll hroll
    exact ⟨fun w => (htotal w).mp, htotal.eq_none_iff⟩

/-- With the greatest number of dice, as many faces as always fit and the greatest offset, the
    greatest total is the greatest word, and no roll overflows. -/
theorem totals_in_words_greatest :
    let p : Pool := ⟨4294967295, .standard, 2147483648, 2147483647⟩
    read "4294967295d2147483648+2147483647" = .ok p ∧ p.highest = Int64.maxValue.toInt ∧
      p.highest? ≠ none ∧
      ¬ ∃ (words rest : List UInt32) (r : Roll),
        p.roll words = .ok (r, rest) ∧ p.total? r.faces = none := by
  intro p
  have hread : read "4294967295d2147483648+2147483647" = .ok p := by decide +kernel
  obtain ⟨-, -, hnone, hfew, -, hroll⟩ := totals_in_words hread
  have hfits : FitsWord (p.count.toNat * p.faces.toNat) ∧ FitsWord p.highest :=
    hfew (.inr (by decide))
  exact ⟨hread, by decide +kernel, fun h => hnone.mp h hfits, fun h => hroll.mp h hfits.2⟩

/-- Neither the product of the greatest numbers of dice and faces nor the total of their last faces
    fits a word, and some roll of them overflows. -/
theorem totals_overflow_largest :
    let p : Pool := ⟨4294967295, .standard, 4294967295, 0⟩
    read "4294967295d4294967295" = .ok p ∧
      ¬ FitsWord (p.count.toNat * p.faces.toNat) ∧ ¬ FitsWord p.highest ∧ p.highest? = none ∧
      ∃ (words rest : List UInt32) (r : Roll),
        p.roll words = .ok (r, rest) ∧ p.total? r.faces = none := by
  intro p
  have hproduct : ¬ FitsWord (p.count.toNat * p.faces.toNat) := by decide +kernel
  have hhighest : ¬ FitsWord p.highest := by decide +kernel
  exact ⟨by decide +kernel, hproduct, hhighest, highest?_eq_none_iff.mpr fun h => hproduct h.1,
    (exists_overflow_iff (by decide) (by decide)).mpr hhighest⟩

end Pool

end Dice
