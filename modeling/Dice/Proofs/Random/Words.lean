import Dice.Proofs.Random.Draws
import Mathlib.Algebra.Order.Floor.Div
import Mathlib.Data.FinEnum
import Mathlib.Order.Interval.Finset.Nat

namespace Dice.Random

/-!
# The words of a face

The products of all words with a number of faces are multiples of that number.  A face takes those
with a given high half whose low half is not under the threshold, and this leaves every face an
interval of the same length, which holds equally many multiples wherever it begins.

* `acceptedWords`, `wordsOf` — the words that give a face at all, and those that give one face.
* `mem_wordsOf` — the interval in which the product lies.
* `mem_Ico_iff_mul_mem_Ico` — how many multiples an interval holds.
* `card_wordsOf` — every face has equally many words.
-/

/-- The words that are not in excess. -/
def acceptedWords (faces : UInt32) : Finset UInt32 :=
  {word | (faceOf? faces word).isSome}

/-- The words that give the face of some number. -/
def wordsOf (faces : UInt32) (face : Nat) : Finset UInt32 :=
  {word | (faceOf? faces word).map UInt32.toNat = some face}

/-- The number of the face that a word gives, and zero for a word in excess. -/
def faceNumber (faces word : UInt32) : Nat :=
  ((faceOf? faces word).map UInt32.toNat).getD 0

/-- The words accepted are those that give a face. -/
@[simp] theorem mem_acceptedWords {faces word : UInt32} :
    word ∈ acceptedWords faces ↔ (faceOf? faces word).isSome := by
  simp [acceptedWords]

/-- The words of a face are the accepted words that give its number. -/
theorem mem_wordsOf_iff_faceNumber {faces word : UInt32} {face : Nat} :
    word ∈ wordsOf faces face ↔ word ∈ acceptedWords faces ∧ faceNumber faces word = face := by
  cases h : faceOf? faces word <;> simp [wordsOf, faceNumber, h]

/-- An accepted word gives one of the faces. -/
theorem faceNumber_mem_Icc {faces word : UInt32} (h : word ∈ acceptedWords faces) :
    faceNumber faces word ∈ Finset.Icc 1 faces.toNat := by
  obtain ⟨face, hface⟩ := Option.isSome_iff_exists.mp (mem_acceptedWords.mp h)
  simpa [faceNumber, hface] using faceOf?_range hface

/-! ### Intervals of products -/

/-- The excess is what is left over when all words are shared out among the faces. -/
theorem threshold_eq_mod (faces : UInt32) : threshold faces = UInt32.size % faces.toNat :=
  (Nat.mod_eq_sub_mod faces.toNat_lt_size.le).symm

/-- A number has a given quotient, and a remainder that is not under some bound, when it lies in an
    interval. -/
theorem le_mod_and_div_eq_iff {bound size : Nat} (h : bound < size) (product below : Nat) :
    bound ≤ product % size ∧ product / size = below ↔
      below * size + bound ≤ product ∧ product < (below + 1) * size := by
  have hproduct : product / size * size + product % size = product :=
    Nat.div_add_mod' product size
  have hmod : product % size < size := Nat.mod_lt _ (by omega)
  rw [Nat.add_one_mul]
  constructor
  · rintro ⟨hbound, rfl⟩
    omega
  · rintro ⟨hlow, hhigh⟩
    have hdiv : product / size = below :=
      Nat.div_eq_of_lt_le (by omega) (by rwa [Nat.succ_mul])
    rw [hdiv] at hproduct
    exact ⟨by omega, hdiv⟩

/-- A word gives the face after `below` others when its product with the number of faces has that
    high half, and a low half that is not under the threshold. -/
theorem mem_wordsOf {faces word : UInt32} {below : Nat} (h : below < faces.toNat) :
    word ∈ wordsOf faces (below + 1) ↔
      below * UInt32.size + UInt32.size % faces.toNat ≤ word.toNat * faces.toNat ∧
        word.toNat * faces.toNat < (below + 1) * UInt32.size := by
  have hfaces : faces.toNat < UInt32.size := faces.toNat_lt_size
  have hbound : UInt32.size % faces.toNat < UInt32.size :=
    (Nat.mod_lt _ (by omega)).trans hfaces
  -- The face is written as a word of 32 bits, which has room for all of them.
  have hquot : word.toNat * faces.toNat / UInt32.size < faces.toNat :=
    Nat.div_lt_of_lt_mul (Nat.mul_lt_mul_of_pos_right word.toNat_lt_size (by omega))
  have hface : (UInt32.ofNat (1 + word.toNat * faces.toNat / UInt32.size)).toNat =
      1 + word.toNat * faces.toNat / UInt32.size := UInt32.toNat_ofNat_of_lt' (by omega)
  rw [← le_mod_and_div_eq_iff hbound]
  simp only [wordsOf, Finset.mem_filter, Finset.mem_univ, true_and, faceOf?, threshold_eq_mod]
  split
  · rename_i hexcess
    simp [Nat.not_le.mpr hexcess]
  · rename_i haccept
    simp only [Option.map_some, Option.some.injEq, hface]
    omega

/-- An interval as long as `many` multiples of a number holds `many` of them. -/
theorem mem_Ico_iff_mul_mem_Ico {n : Nat} (hn : 0 < n) (start many k : Nat) :
    k ∈ Finset.Ico (start ⌈/⌉ n) (start ⌈/⌉ n + many) ↔
      k * n ∈ Finset.Ico start (start + many * n) := by
  have hlow : start ⌈/⌉ n ≤ k ↔ start ≤ k * n := by
    rw [Nat.mul_comm]
    exact ceilDiv_le_iff_le_mul hn
  -- The upper ends are the lower ends of the multiples moved back by `many`.
  have hhigh : k < start ⌈/⌉ n + many ↔ k * n < start + many * n := by
    rcases Nat.lt_or_ge k many with hless | hmore
    · have : k * n ≤ many * n := Nat.mul_le_mul_right n hless.le
      have : k * n < many * n := Nat.mul_lt_mul_of_pos_right hless hn
      omega
    · obtain ⟨j, rfl⟩ := Nat.exists_eq_add_of_le hmore
      have hj : start ⌈/⌉ n ≤ j ↔ start ≤ n * j := ceilDiv_le_iff_le_mul hn
      have hmul : (many + j) * n = many * n + n * j := by ring
      omega
  rw [Finset.mem_Ico, Finset.mem_Ico, hlow, hhigh]

/-- Every face of a die has equally many words. -/
theorem card_wordsOf {faces : UInt32} {face : Nat} (hone : 1 ≤ face) (hface : face ≤ faces.toNat) :
    (wordsOf faces face).card = UInt32.size / faces.toNat := by
  obtain ⟨below, rfl⟩ := Nat.exists_eq_add_of_le' hone
  have hpos : 0 < faces.toNat := by omega
  let start := below * UInt32.size + UInt32.size % faces.toNat
  let many := UInt32.size / faces.toNat
  have hend : start + many * faces.toNat = (below + 1) * UInt32.size := by
    have hdiv : many * faces.toNat + UInt32.size % faces.toNat = UInt32.size :=
      Nat.div_add_mod' _ _
    rw [Nat.add_one_mul]
    omega
  have himage : (wordsOf faces (below + 1)).image UInt32.toNat =
      Finset.Ico (start ⌈/⌉ faces.toNat) (start ⌈/⌉ faces.toNat + many) := by
    ext k
    rw [mem_Ico_iff_mul_mem_Ico hpos, hend, Finset.mem_Ico, Finset.mem_image]
    constructor
    · rintro ⟨word, hword, rfl⟩
      exact (mem_wordsOf hface).mp hword
    · intro hk
      -- The product lies under that of the faces and all words, so its factor is a word.
      have hle : (below + 1) * UInt32.size ≤ UInt32.size * faces.toNat := by
        rw [Nat.mul_comm]
        exact Nat.mul_le_mul_left _ hface
      have hsize : k < UInt32.size := Nat.lt_of_mul_lt_mul_right (hk.2.trans_le hle)
      have htoNat : (UInt32.ofNat k).toNat = k := UInt32.toNat_ofNat_of_lt' hsize
      refine ⟨UInt32.ofNat k, (mem_wordsOf hface).mpr ?_, htoNat⟩
      rwa [htoNat]
  rw [← Finset.card_image_of_injective _ fun _ _ => UInt32.toNat_inj.mp, himage, Nat.card_Ico,
    Nat.add_sub_cancel_left]

/-- Every face of a die has a word. -/
theorem share_pos {faces : UInt32} (h : 1 ≤ faces.toNat) : 0 < UInt32.size / faces.toNat :=
  Nat.div_pos faces.toNat_lt_size.le h

end Dice.Random
