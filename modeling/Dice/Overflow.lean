import Dice.Roll

namespace Dice

open Dice.Random

/-!
# Totals in words

The totals of a pool are whole numbers of any size.  Here they are computed in signed words of 64
bits, and such a word does not hold every number: a sum or a product that it does not hold
overflows, and then there is no result.

* `FitsWord` — the numbers that a word holds.
* `addWords?`, `mulWords?` — arithmetic on words.
* `Computes` — a result that is exact, and missing only where no word holds it.
* `Pool.lowest?`, `Pool.highest?` — the bounds of a pool.
* `addFaces?`, `Pool.total?` — the total of some faces, which are added one after the other.
* `drawAdding?`, `Pool.roll?` — rolling a pool, with every face added as it is drawn.
-/

/-! ### Words -/

/-- A whole number that a signed word of 64 bits holds. -/
def FitsWord (n : Int) : Prop :=
  Int64.minValue.toInt ≤ n ∧ n ≤ Int64.maxValue.toInt

instance (n : Int) : Decidable (FitsWord n) :=
  inferInstanceAs (Decidable (_ ∧ _))

/-- A word of 32 bits without a sign, made longer. -/
def wide (word : UInt32) : Int64 :=
  word.toUInt64.toInt64

/-- Nothing is lost when a word is made longer. -/
@[simp] theorem toInt_wide (word : UInt32) : (wide word).toInt = word.toNat := by
  have hsize : word.toNat < 4294967296 := word.toNat_lt
  have hbits : word.toUInt64.toBitVec.toNat = word.toNat := UInt32.toNat_toUInt64 word
  rw [← Int64.toInt_toBitVec, wide, UInt64.toBitVec_toInt64,
    BitVec.toInt_eq_toNat_of_lt (by omega), hbits]

/-- The least and the greatest number that fit. -/
theorem fitsWord_iff_between {n : Int} :
    FitsWord n ↔ -9223372036854775808 ≤ n ∧ n ≤ 9223372036854775807 := by
  rw [FitsWord, Int64.toInt_minValue, Int64.toInt_maxValue]
  omega

/-- A number fits if some word stands for it. -/
theorem fitsWord_iff {n : Int} : FitsWord n ↔ ∃ w : Int64, w.toInt = n := by
  constructor
  · intro h
    obtain ⟨hlow, hhigh⟩ := fitsWord_iff_between.mp h
    exact ⟨.ofInt n, Int64.toInt_ofInt_of_le (by omega) (by omega)⟩
  · rintro ⟨w, rfl⟩
    exact ⟨w.minValue_le_toInt, w.toInt_le⟩

/-! ### Arithmetic that may overflow -/

/-- The sum of two words, unless it overflows. -/
def addWords? (a b : Int64) : Option Int64 :=
  if a.toBitVec.saddOverflow b.toBitVec then none else some (a + b)

/-- The product of two words, unless it overflows. -/
def mulWords? (a b : Int64) : Option Int64 :=
  if a.toBitVec.smulOverflow b.toBitVec then none else some (a * b)

/-- The result of a computation in words that is to give some number: it is that number if there is
    a result, and there is one if the number fits. -/
def Computes (result : Option Int64) (n : Int) : Prop :=
  ∀ w, result = some w ↔ w.toInt = n

/-- An operation whose overflow is noticed, and which is exact without one. -/
theorem computes_ite {overflows : Bool} {result : Int64} {n : Int}
    (hover : overflows = true → ¬ FitsWord n) (hexact : ¬ overflows = true → result.toInt = n) :
    Computes (if overflows then none else some result) n := by
  intro w
  split
  · rename_i h
    exact ⟨nofun, fun hw => absurd (fitsWord_iff.mpr ⟨w, hw⟩) (hover h)⟩
  · rename_i h
    rw [Option.some.injEq, ← hexact h, Int64.toInt_inj]
    exact eq_comm

/-- Adding words gives their sum, or nothing if it does not fit. -/
theorem computes_addWords? (a b : Int64) : Computes (addWords? a b) (a.toInt + b.toInt) := by
  refine computes_ite (fun hover => ?_) fun hexact => ?_
  · simp only [BitVec.saddOverflow, Int64.toInt_toBitVec, Bool.or_eq_true,
      decide_eq_true_eq] at hover
    rw [fitsWord_iff_between]
    omega
  · rw [← Int64.toInt_toBitVec, Int64.toBitVec_add, BitVec.toInt_add_of_not_saddOverflow hexact,
      Int64.toInt_toBitVec, Int64.toInt_toBitVec]

/-- Multiplying words gives their product, or nothing if it does not fit. -/
theorem computes_mulWords? (a b : Int64) : Computes (mulWords? a b) (a.toInt * b.toInt) := by
  refine computes_ite (fun hover => ?_) fun hexact => ?_
  · simp only [BitVec.smulOverflow, Int64.toInt_toBitVec, Bool.or_eq_true,
      decide_eq_true_eq] at hover
    rw [fitsWord_iff_between]
    omega
  · rw [← Int64.toInt_toBitVec, Int64.toBitVec_mul, BitVec.toInt_mul_of_not_smulOverflow hexact,
      Int64.toInt_toBitVec, Int64.toInt_toBitVec]

/-! ### Bounds and totals -/

/-- Adds faces to a total, one after the other, unless one of the sums overflows. -/
def addFaces? (total : Int64) (faces : List UInt32) : Option Int64 :=
  faces.foldlM (fun total face => addWords? total (wide face)) total

namespace Pool

/-- The least total in a word, unless it overflows. -/
def lowest? (p : Pool) : Option Int64 :=
  addWords? (wide p.count) p.offset.toInt64

/-- The greatest total in a word, unless it overflows or the product of the dice and their faces
    does. -/
def highest? (p : Pool) : Option Int64 := do
  addWords? (← mulWords? (wide p.count) (wide p.faces)) p.offset.toInt64

/-- The total of some faces in a word: they are added to the offset, and none of the sums may
    overflow. -/
def total? (p : Pool) (faces : List UInt32) : Option Int64 :=
  addFaces? p.offset.toInt64 faces

end Pool

/-! ### Rolls -/

section Rolling

variable {S : Type} [WordSource S]

/-- Draws some faces and adds each of them to a total before the next is drawn.  The faces go after
    those drawn before, which are listed from the last to the first.  Nothing comes back if one of
    the sums overflows. -/
def drawAdding? (faces : UInt32) : Nat → Int64 → List UInt32 → S →
    Option (Except RollError (Int64 × List UInt32 × S))
  | 0, total, drawn, s => some (.ok (total, drawn.reverse, s))
  | count + 1, total, drawn, s =>
    match drawFace faces s with
    | none => some (.error .noWords)
    | some (face, s) =>
      match addWords? total (wide face) with
      | none => none
      | some sum => drawAdding? faces count sum (face :: drawn) s

/-- Rolls a pool with the total in a word: it starts from the offset, and the faces are added as
    they are drawn.  Nothing comes back if one of the sums overflows. -/
def Pool.roll? (p : Pool) (s : S) : Option (Except RollError (Roll × S)) :=
  if p.faces = 0 then some (.error .noFaces)
  else (drawAdding? p.faces p.count.toNat p.offset.toInt64 [] s).map fun result =>
    result.map fun (total, faces, s) => (⟨total.toInt, faces, p⟩, s)

end Rolling

end Dice
