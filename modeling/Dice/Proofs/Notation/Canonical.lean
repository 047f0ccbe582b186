import Dice.Notation.Written
import Dice.Proofs.Notation.Cuts
import Dice.Proofs.Notation.Grammar

namespace Dice

namespace Pool

open Dice.Notation Dice.Text

/-!
# Canonical notation is read back

The text written for a pool is cut into pieces that denote the pool.  They are in range unless the
offset is the least word: without its sign it is one more than the reader takes.

* `Pool.pieces` — the pieces that a pool is written with.
* `Pool.toList_text` — the text of a pool is the text of its pieces.
* `Pool.read_text_eq` — what is read from the text of a pool.
-/

/-! ### The pieces of a pool -/

/-- The sign and the digits of an offset.  An offset of zero is not written. -/
def offsetPiece (offset : Int32) : Option (Sign × List Char) :=
  if 0 < offset.toInt then some (.plus, (natural offset.toInt.natAbs).toList)
  else if offset.toInt < 0 then some (.minus, (natural offset.toInt.natAbs).toList)
  else none

/-- The pieces that a pool is written with. -/
def pieces (p : Pool) : Pieces where
  count := (natural p.count.toNat).toList
  mode := p.mode
  faces := (natural p.faces.toNat).toList
  offset := offsetPiece p.offset

/-- An offset is written as its sign and its digits, and zero not at all. -/
theorem toList_offsetText (offset : Int32) :
    (offsetText offset).toList = Pieces.offsetChars (offsetPiece offset) := by
  unfold offsetText offsetPiece integer
  by_cases hpos : 0 < offset.toInt
  · have hsign : ¬ offset.toInt < 0 := by omega
    rw [if_pos hpos, if_pos hpos, if_neg hsign, String.toList_append]
    rfl
  · rw [if_neg hpos, if_neg hpos]
    by_cases hneg : offset.toInt < 0
    · rw [if_pos hneg, if_pos hneg, if_pos hneg, String.toList_append]
      rfl
    · rw [if_neg hneg, if_neg hneg]
      rfl

/-- The text of a pool is the text of its pieces. -/
theorem toList_text (p : Pool) : p.text.toList = p.pieces.chars := by
  simp only [text, String.toList_append, toList_offsetText, Pieces.chars, pieces]
  simp

/-- A property of the offset that is written holds if it holds of the number without its sign. -/
theorem forall_mem_offsetPiece {offset : Int32} {P : Sign × List Char → Prop}
    (h : ∀ s : Sign, P (s, (natural offset.toInt.natAbs).toList)) :
    ∀ o ∈ offsetPiece offset, P o := by
  intro o ho
  unfold offsetPiece at ho
  split at ho
  · cases ho
    exact h .plus
  · split at ho
    · cases ho
      exact h .minus
    · cases ho

/-- What is written is made of digits and letters in their places. -/
theorem shaped_pieces (p : Pool) : p.pieces.Shaped where
  count := isRun_natural _
  faces := isRun_natural _
  faces_ne := natural_ne_nil _
  offset := forall_mem_offsetPiece fun _ => ⟨isRun_natural _, natural_ne_nil _⟩

/-- The offset written is the offset of the dice. -/
theorem offsetValue_offsetPiece (offset : Int32) :
    Pieces.offsetValue (offsetPiece offset) = offset.toInt := by
  unfold offsetPiece
  by_cases hpos : 0 < offset.toInt
  · rw [if_pos hpos, Pieces.offsetValue, value_natural, Sign.signed]
    omega
  · rw [if_neg hpos]
    by_cases hneg : offset.toInt < 0
    · rw [if_pos hneg, Pieces.offsetValue, value_natural, Sign.signed]
      omega
    · rw [if_neg hneg, Pieces.offsetValue]
      omega

/-- The pieces of a pool stand for the pool. -/
theorem denotes_pieces (p : Pool) : p.pieces.Denotes p where
  count := by
    show p.count.toNat = if (natural p.count.toNat).toList = [] then 1 else _
    rw [if_neg (natural_ne_nil _)]
    exact (value_natural _).symm
  mode := rfl
  faces := (value_natural _).symm
  offset := (offsetValue_offsetPiece p.offset).symm

/-- Only the least word is too great without its sign. -/
theorem natAbs_toInt_le {offset : Int32} (h : offset ≠ Int32.minValue) :
    offset.toInt.natAbs ≤ 2 ^ 31 - 1 := by
  have hlow : -2 ^ 31 ≤ offset.toInt := offset.le_toInt
  have hhigh : offset.toInt < 2 ^ 31 := offset.toInt_lt
  have hne : offset.toInt ≠ -2 ^ 31 := by
    rw [← Int32.toInt_minValue]
    exact fun hmin => h (Int32.toInt_inj.mp hmin)
  omega

/-- A word with a value of at least one is written in range. -/
theorem word_inRange {word : UInt32} (h : 1 ≤ word.toNat) :
    1 ≤ value (natural word.toNat).toList ∧ value (natural word.toNat).toList ≤ 2 ^ 32 - 1 := by
  have hsize : word.toNat < 2 ^ 32 := word.toNat_lt
  rw [value_natural]
  omega

/-- What is written of dice with faces is in range, unless it is the least offset. -/
theorem inRange_pieces {p : Pool} (hc : 1 ≤ p.count.toNat) (hf : 1 ≤ p.faces.toNat)
    (ho : p.offset ≠ Int32.minValue) : p.pieces.InRange where
  count := fun _ => word_inRange hc
  faces := word_inRange hf
  offset := forall_mem_offsetPiece fun _ => by
    show value (natural p.offset.toInt.natAbs).toList ≤ 2 ^ 31 - 1
    rw [value_natural]
    exact natAbs_toInt_le ho

end Pool

/-! ### Reading pieces -/

namespace Notation

open Dice.Text

/-- A text of pieces with a sign is cut after the sign, whatever the number of the offset is. -/
theorem Pieces.Shaped.cut_offset {p : Pieces} {s : Sign} {run : List Char} (hs : p.Shaped)
    (hcount : p.count ≠ [] → 1 ≤ value p.count ∧ value p.count ≤ 2 ^ 32 - 1)
    (hfaces : 1 ≤ value p.faces ∧ value p.faces ≤ 2 ^ 32 - 1) (ho : p.offset = some (s, run)) :
    Cut p.chars .offset (p.count ++ [p.mode.letter] ++ p.faces ++ [s.char]) run := by
  have hletter : Cut p.chars .letter p.count
      (p.mode.letter :: (p.faces ++ offsetChars p.offset)) := by
    have hcut : Cut p.chars .letter _ _ := Cut.start.count (hs.digitRun_chars.symm ▸ hcount)
    rwa [hs.digitRun_chars, hs.afterRun_chars] at hcut
  have hsign : Cut p.chars .sign (p.count ++ [p.mode.letter] ++ p.faces)
      (offsetChars p.offset) := by
    have hcut := hletter.letter.faces (hs.digitRun_faces.symm ▸ hs.faces_ne)
      (hs.digitRun_faces.symm ▸ hfaces)
    rwa [hs.digitRun_faces, hs.afterRun_faces] at hcut
  rw [ho] at hsign
  exact hsign.sign

end Notation

namespace Pool

open Dice.Notation Dice.Text

/-- The text of a pool with the least offset is refused at the digits of the offset. -/
theorem read_text_of_minValue {p : Pool} (hc : 1 ≤ p.count.toNat) (hf : 1 ≤ p.faces.toNat)
    (ho : p.offset = Int32.minValue) :
    Pool.read p.text = .error ⟨p.text.length - 10, some '2', .smaller⟩ := by
  have hpiece : p.pieces.offset = some (.minus, "2147483648".toList) := by
    show offsetPiece p.offset = _
    rw [ho]
    decide +kernel
  obtain ⟨before, hcut⟩ : ∃ before, Cut p.text.toList .offset before "2147483648".toList := by
    rw [toList_text]
    exact ⟨_, p.shaped_pieces.cut_offset (fun _ => word_inRange hc) (word_inRange hf) hpiece⟩
  have hten : "2147483648".toList.length = 10 := by decide +kernel
  have hlength : p.text.length - 10 = before.length := by
    rw [← String.length_toList, ← hcut.append_eq, List.length_append, hten, Nat.add_sub_cancel]
  have hgreat : 2 ^ 31 - 1 < value (digitRun "2147483648".toList) := by decide +kernel
  rw [hlength]
  exact readChars_eq_error.mpr ⟨_, before, _, _, hcut, .smallerOffset hgreat, rfl⟩

/-- Reading the text of a pool with dice and faces gives the pool back, unless its offset is the
    least word: then the number after the sign is too great. -/
theorem read_text_eq (p : Pool) (hc : 1 ≤ p.count.toNat) (hf : 1 ≤ p.faces.toNat) :
    Pool.read p.text =
      if p.offset = Int32.minValue then .error ⟨p.text.length - 10, some '2', .smaller⟩
      else .ok p := by
  by_cases ho : p.offset = Int32.minValue
  · rw [if_pos ho]
    exact read_text_of_minValue hc hf ho
  · rw [if_neg ho, Pool.read, toList_text]
    exact readChars_chars p.shaped_pieces (inRange_pieces hc hf ho) p.denotes_pieces

/-- The greatest number of the largest dice, with the least offset but one, is read back. -/
theorem read_text_largest :
    1 ≤ (⟨4294967295, .unique, 4294967295, -2147483647⟩ : Pool).count.toNat ∧
      1 ≤ (⟨4294967295, .unique, 4294967295, -2147483647⟩ : Pool).faces.toNat ∧
      Pool.read (text ⟨4294967295, .unique, 4294967295, -2147483647⟩) =
        .ok ⟨4294967295, .unique, 4294967295, -2147483647⟩ :=
  ⟨by decide, by decide, read_text_eq _ (by decide) (by decide)⟩

/-- Not every pool with dice and faces is read back: one die of six faces with the least offset is
    not. -/
theorem not_forall_read_text_eq_ok :
    ¬ ∀ p : Pool, 1 ≤ p.count.toNat → 1 ≤ p.faces.toNat → Pool.read p.text = .ok p := by
  intro h
  have hread : Pool.read (text ⟨1, .standard, 6, Int32.minValue⟩) =
      .error ⟨4, some '2', .smaller⟩ := by decide +kernel
  have hback := h ⟨1, .standard, 6, Int32.minValue⟩ (by decide) (by decide)
  rw [hread] at hback
  cases hback

end Pool

end Dice
