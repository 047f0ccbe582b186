import Dice.Proofs.Decimal.Digits
import Dice.Proofs.Notation.Canonical

namespace Dice

namespace Notation

open Dice.Decimal Dice.Text

/-!
# Canonical notation is normal

Notation has many spellings: numbers may start with zeros, a single die need not be counted, and
nothing may be added or taken away.  A second way to the canonical text of a pool is to clear a
spelling of these, which looks at its characters only and reads no number.

* `normalChars`, `normalText` — a spelling, cleared.
* `Pieces.normalChars_chars` — the cleared text of pieces is that of the pool they denote.
* `Pool.text_of_read` — the text of a pool that is read is the cleared spelling, which stands for
  the same pool, and for no other.
-/

/-! ### Clearing a spelling -/

/-- The characters of a text without the leading zeros of its numbers, with the number of dice
    written out, and without an offset of nothing. -/
def normalChars (text : List Char) : List Char :=
  let letter := afterRun text
  let sign := afterRun letter.tail
  let offset := trimZeros sign.tail
  (if digitRun text = [] then ['1'] else trimZeros (digitRun text)) ++ letter.take 1 ++
    trimZeros (digitRun letter.tail) ++ if offset = [] then [] else sign.take 1 ++ offset

/-- A text without leading zeros, with the number of dice, and without an offset of nothing. -/
def normalText (text : String) : String :=
  String.ofList (normalChars text.toList)

namespace Pieces

variable {p : Pieces} {pool : Pool}

/-- The number of dice is written without leading zeros, and as one where it is left out. -/
theorem count_eq (hs : p.Shaped) (hr : p.InRange) (hd : p.Denotes pool) :
    (natural pool.count.toNat).toList = if p.count = [] then ['1'] else trimZeros p.count := by
  rw [toList_natural, hd.count]
  by_cases hcount : p.count = []
  · rw [if_pos hcount, if_pos hcount]
    rfl
  · rw [if_neg hcount, if_neg hcount]
    exact toDigits_value hs.count (hr.count hcount).1

/-- The offset is written with its sign and without leading zeros, and is left out if nothing else
    is there. -/
theorem offset_eq (hs : p.Shaped) (hd : p.Denotes pool) :
    offsetChars (Pool.offsetPiece pool.offset) =
      if trimZeros (offsetChars p.offset).tail = [] then []
      else (offsetChars p.offset).take 1 ++ trimZeros (offsetChars p.offset).tail := by
  have hvalue := hd.offset
  cases ho : p.offset with
  | none =>
    rw [ho, offsetValue] at hvalue
    rw [Pool.offsetPiece, if_neg (by omega), if_neg (by omega)]
    rfl
  | some o =>
    obtain ⟨sign, run⟩ := o
    obtain ⟨hrun, -⟩ := hs.offset _ ho
    rw [ho, offsetValue] at hvalue
    show offsetChars (Pool.offsetPiece pool.offset) =
      if trimZeros run = [] then [] else [sign.char] ++ trimZeros run
    by_cases hzero : value run = 0
    · -- Nothing is added or taken away, whichever sign it has.
      have hnone : pool.offset.toInt = 0 := by
        rw [hvalue, hzero]
        cases sign <;> rfl
      rw [if_pos ((trimZeros_eq_nil_iff hrun).mpr hzero), Pool.offsetPiece, if_neg (by omega),
        if_neg (by omega)]
      rfl
    · have hdigits : (natural (value run)).toList = trimZeros run := by
        rw [toList_natural, toDigits_value hrun (Nat.pos_of_ne_zero hzero)]
      rw [if_neg (mt (trimZeros_eq_nil_iff hrun).mp hzero), Pool.offsetPiece, ← hdigits]
      cases sign with
      | plus =>
        have hplus : pool.offset.toInt = value run := hvalue
        rw [if_pos (by omega), hplus]
        rfl
      | minus =>
        have hminus : pool.offset.toInt = -value run := hvalue
        rw [if_neg (by omega), if_pos (by omega), hminus, Int.natAbs_neg]
        rfl

/-- Clearing the text of pieces gives the text of the pool that they denote. -/
theorem normalChars_chars (hs : p.Shaped) (hr : p.InRange) (hd : p.Denotes pool) :
    normalChars p.chars = pool.pieces.chars := by
  have hfaces : (natural pool.faces.toNat).toList = trimZeros p.faces := by
    rw [toList_natural, hd.faces]
    exact toDigits_value hs.faces hr.faces.1
  unfold normalChars
  rw [hs.digitRun_chars, hs.afterRun_chars]
  simp only [List.tail_cons, hs.digitRun_faces, hs.afterRun_faces]
  rw [← count_eq hs hr hd, ← offset_eq hs hd, ← hfaces, ← hd.mode]
  simp [chars, Pool.pieces]

/-- An offset that is read is not the least word. -/
theorem offset_ne_minValue (hr : p.InRange) (hd : p.Denotes pool) :
    pool.offset ≠ Int32.minValue := by
  intro hmin
  have hvalue := hd.offset
  rw [hmin, Int32.toInt_minValue] at hvalue
  cases ho : p.offset with
  | none =>
    rw [ho] at hvalue
    cases hvalue
  | some o =>
    have hrange := hr.offset o ho
    rw [ho, offsetValue] at hvalue
    cases hsign : o.1 with
    | plus =>
      rw [hsign, Sign.signed] at hvalue
      omega
    | minus =>
      rw [hsign, Sign.signed] at hvalue
      omega

end Pieces

end Notation

namespace Pool

open Dice.Notation

/-- The text of a pool that is read is what is read, cleared. -/
theorem text_eq_normalText {t : String} {s : Pool} (h : Pool.read t = .ok s) :
    s.text = normalText t := by
  obtain ⟨p, ⟨hshaped, hrange⟩, hchars, hd⟩ := exists_pieces_of_readChars h
  rw [normalText, ← hchars, Pieces.normalChars_chars hshaped hrange hd, ← toList_text,
    String.ofList_toList]

/-- The text of a pool that is read is read back. -/
theorem read_text_of_read {t : String} {s : Pool} (h : Pool.read t = .ok s) :
    Pool.read s.text = .ok s := by
  obtain ⟨p, ⟨-, hrange⟩, -, hd⟩ := exists_pieces_of_readChars h
  obtain ⟨hcount, hfaces⟩ := positive_of_readChars h
  rw [Pool.read, toList_text]
  exact readChars_chars s.shaped_pieces
    (inRange_pieces hcount hfaces (Pieces.offset_ne_minValue hrange hd)) s.denotes_pieces

/-- The canonical text of a text that is read is the text cleared: without the leading zeros of its
    numbers, with the number of dice written out, and without an offset of nothing.  It is read as
    the same pool, and is its own canonical text.  Two texts that are read have the same canonical
    text exactly if they are read as the same pool. -/
theorem text_of_read :
    (∀ (t : String) (s : Pool), Pool.read t = .ok s →
      s.text = normalText t ∧ Pool.read (normalText t) = .ok s ∧
        normalText (normalText t) = normalText t) ∧
    ∀ (t t' : String) (s s' : Pool), Pool.read t = .ok s → Pool.read t' = .ok s' →
      (s.text = s'.text ↔ s = s') := by
  refine ⟨fun t s h => ?_, fun t t' s s' h h' => ⟨fun heq => ?_, fun heq => by rw [heq]⟩⟩
  · have hback := read_text_of_read h
    rw [← text_eq_normalText h]
    exact ⟨rfl, hback, (text_eq_normalText hback).symm⟩
  · have hback := read_text_of_read h
    rw [heq, read_text_of_read h'] at hback
    exact (Except.ok.inj hback).symm

/-- One die of six faces with leading zeros and nothing taken away is `1d6`, as is `d6`; a die of
    the other mode is not. -/
theorem text_of_read_zeros :
    Pool.read "001d06-00" = .ok ⟨1, .standard, 6, 0⟩ ∧ Pool.read "u6" = .ok ⟨1, .unique, 6, 0⟩ ∧
      text ⟨1, .standard, 6, 0⟩ = normalText "001d06-00" ∧ normalText "001d06-00" = "1d6" ∧
      text ⟨1, .standard, 6, 0⟩ ≠ text ⟨1, .unique, 6, 0⟩ := by
  have hread : Pool.read "001d06-00" = .ok ⟨1, .standard, 6, 0⟩ := by decide +kernel
  have hother : Pool.read "u6" = .ok ⟨1, .unique, 6, 0⟩ := by decide +kernel
  obtain ⟨hnormal, hequal⟩ := text_of_read
  refine ⟨hread, hother, (hnormal _ _ hread).1, by decide +kernel, ?_⟩
  exact mt (hequal _ _ _ _ hread hother).mp (by decide)

end Pool

end Dice
