import Dice.Proofs.Notation.Parts

namespace Dice.Notation

open Dice.Text

/-!
# What the parts of the reader refuse

Every part of the reader of dice notation refuses some texts at its place, and the fault names the
place and what would have been needed there.  This file says, for each part, exactly which texts it
refuses.

* `Part`, `Refuses` — what may come next in a text, and the texts that do not go on with it.
* `readCount_eq_error`, `readMode_eq_error`, `readFaces_eq_error`, `readOffset_eq_error` — the
  faults of the four parts.
-/

/-- Two steps fail if the first fails, or the second does after it. -/
theorem bind_eq_error {α β : Type} {x : Except Stop α} {f : α → Except Stop β} {e : Stop} :
    (x >>= f) = .error e ↔ x = .error e ∨ ∃ a, x = .ok a ∧ f a = .error e := by
  cases x with
  | error e' => simp [bind, Except.bind]
  | ok a => simp [bind, Except.bind]

/-- What may come next in a text of dice notation. -/
inductive Part where
  /-- The number of dice, which may be left out. -/
  | count
  /-- The letter. -/
  | letter
  /-- The number of faces. -/
  | faces
  /-- The sign of an offset, or the end of the text. -/
  | sign
  /-- The number of an offset, after its sign. -/
  | offset
  /-- The end of the text. -/
  | ending
deriving DecidableEq

/-- The texts that do not go on with a part, and what the part needs instead. -/
inductive Refuses (rest : List Char) : Part → Expected → Prop where
  | number {part : Part} (hpart : part = .faces ∨ part = .offset) (hnone : digitRun rest = []) :
      Refuses rest part .number
  | nonZero {part : Part} (hpart : part = .count ∨ part = .faces) (hsome : digitRun rest ≠ [])
      (hzero : value (digitRun rest) = 0) : Refuses rest part .nonZero
  | smaller {part : Part} (hpart : part = .count ∨ part = .faces)
      (hgreat : 2 ^ 32 - 1 < value (digitRun rest)) : Refuses rest part .smaller
  | smallerOffset (hgreat : 2 ^ 31 - 1 < value (digitRun rest)) : Refuses rest .offset .smaller
  | mode (hletter : ∀ m : Mode, rest.head? ≠ some m.letter) : Refuses rest .letter .mode
  | sign (hsome : rest ≠ []) (hsign : ∀ s : Sign, rest.head? ≠ some s.char) :
      Refuses rest .sign .ending
  | ending (hsome : rest ≠ []) : Refuses rest .ending .ending

/-- A value beyond a limit is the value of some digits. -/
theorem digits_ne_of_lt_value {p : Place} {limit : Nat} (h : limit < value p.digits) :
    p.digits ≠ [] := by
  intro hnone
  rw [hnone] at h
  exact Nat.not_lt_zero limit h

/-- A number is refused if it has no digits, or if it is too great. -/
theorem readNumber_eq_error {limit : Nat} {p : Place} {e : Stop} :
    readNumber limit p = .error e ↔
      (p.digits = [] ∧ e = p.stop .number) ∨ (limit < value p.digits ∧ e = p.stop .smaller) := by
  unfold readNumber
  by_cases hnone : p.digits = []
  · have hless : ¬ limit < value [] := Nat.not_lt_zero limit
    simp [hnone, hless, eq_comm]
  · rw [if_neg hnone]
    by_cases hle : value p.digits ≤ limit
    · simp [hnone, Nat.not_lt.mpr hle, hle]
    · simp [hnone, Nat.not_le.mp hle, hle, eq_comm]

/-- A number that has to be positive is refused where it is zero, too. -/
theorem readPositive_eq_error {p : Place} {e : Stop} :
    readPositive p = .error e ↔
      (p.digits = [] ∧ e = p.stop .number) ∨
        (2 ^ 32 - 1 < value p.digits ∧ e = p.stop .smaller) ∨
        (p.digits ≠ [] ∧ value p.digits = 0 ∧ e = p.stop .nonZero) := by
  have hmax : maxCount = 2 ^ 32 - 1 := rfl
  unfold readPositive
  rw [bind_eq_error, readNumber_eq_error, hmax, or_assoc]
  -- What is left is that a number which is read is refused only as zero.
  refine or_congr_right (or_congr_right ⟨?_, ?_⟩)
  · rintro ⟨n, hn, h⟩
    obtain ⟨hne, -, rfl⟩ := readNumber_eq_ok.mp hn
    split at h
    · rename_i hzero
      cases h
      exact ⟨hne, hzero, rfl⟩
    · cases h
  · rintro ⟨hne, hzero, rfl⟩
    exact ⟨0, readNumber_eq_ok.mpr ⟨hne, by omega, hzero⟩, rfl⟩

/-- The number of faces is refused where a positive number is. -/
theorem readFaces_eq_error {p : Place} {e : Stop} :
    readFaces p = .error e ↔ ∃ x, Refuses p.rest .faces x ∧ e = p.stop x := by
  have hread : readFaces p = .error e ↔ readPositive p = .error e := by
    unfold readFaces
    rw [bind_eq_error]
    simp
  rw [hread, readPositive_eq_error]
  constructor
  · rintro (⟨hnone, he⟩ | ⟨hgreat, he⟩ | ⟨hsome, hzero, he⟩)
    · exact ⟨_, .number (.inl rfl) hnone, he⟩
    · exact ⟨_, .smaller (.inr rfl) hgreat, he⟩
    · exact ⟨_, .nonZero (.inr rfl) hsome hzero, he⟩
  · rintro ⟨x, hx, he⟩
    cases hx with
    | number _ hnone => exact .inl ⟨hnone, he⟩
    | smaller _ hgreat => exact .inr (.inl ⟨hgreat, he⟩)
    | nonZero _ hsome hzero => exact .inr (.inr ⟨hsome, hzero, he⟩)

/-- The number of dice is refused where a positive number is, but it may be left out. -/
theorem readCount_eq_error {p : Place} {e : Stop} :
    readCount p = .error e ↔ ∃ x, Refuses p.rest .count x ∧ e = p.stop x := by
  have hread : readCount p = .error e ↔ p.digits ≠ [] ∧ readPositive p = .error e := by
    unfold readCount
    by_cases hnone : p.digits = []
    · simp [hnone]
    · rw [if_neg hnone, bind_eq_error]
      simp [hnone]
  rw [hread, readPositive_eq_error]
  constructor
  · rintro ⟨hsome, ⟨hnone, -⟩ | ⟨hgreat, he⟩ | ⟨-, hzero, he⟩⟩
    · exact absurd hnone hsome
    · exact ⟨_, .smaller (.inl rfl) hgreat, he⟩
    · exact ⟨_, .nonZero (.inl rfl) hsome hzero, he⟩
  · rintro ⟨x, hx, he⟩
    cases hx with
    | number hpart => simp at hpart
    | smaller _ hgreat => exact ⟨digits_ne_of_lt_value hgreat, .inr (.inl ⟨hgreat, he⟩)⟩
    | nonZero _ hsome hzero => exact ⟨hsome, .inr (.inr ⟨hsome, hzero, he⟩)⟩

/-- Anything but the two letters is refused where the letter comes next. -/
theorem readMode_eq_error {p : Place} {e : Stop} :
    readMode p = .error e ↔ ∃ x, Refuses p.rest .letter x ∧ e = p.stop x := by
  have hread : readMode p = .error e ↔
      (∀ m : Mode, p.rest.head? ≠ some m.letter) ∧ e = p.stop .mode := by
    by_cases hletter : ∃ m : Mode, p.rest.head? = some m.letter
    · obtain ⟨m, hm⟩ := hletter
      have hok : readMode p = .ok (m, p.next) := readMode_eq_ok.mpr ⟨hm, rfl⟩
      rw [hok]
      simp only [reduceCtorEq, false_iff, not_and]
      exact fun hno => absurd hm (hno m)
    · -- No mode has the letter, so there is none to be looked up.
      have hno : ∀ m : Mode, p.rest.head? ≠ some m.letter := by simpa using hletter
      have hnone : p.rest.head?.bind Mode.ofLetter? = none := by
        refine Option.bind_eq_none_iff.mpr fun c hc => ?_
        by_contra hsome
        obtain ⟨m, hm⟩ := Option.ne_none_iff_exists'.mp hsome
        exact hno m (by rw [hc, Mode.eq_letter_of_ofLetter? hm])
      unfold readMode
      simp [hnone, hno, eq_comm]
  rw [hread]
  constructor
  · rintro ⟨hno, he⟩
    exact ⟨_, .mode hno, he⟩
  · rintro ⟨x, hx, he⟩
    cases hx with
    | number hpart => simp at hpart
    | smaller hpart => simp at hpart
    | nonZero hpart => simp at hpart
    | mode hno => exact ⟨hno, he⟩

/-- Where no digits are left, only the number after a sign can be refused. -/
theorem readOffset_eq_error {p : Place} {e : Stop} (hd : p.digits = []) :
    readOffset p = .error e ↔
      ∃ (s : Sign) (tail : List Char), p.rest = s.char :: tail ∧
        ∃ x, Refuses p.next.rest .offset x ∧ e = p.next.stop x := by
  have hmax : maxOffset = 2 ^ 31 - 1 := rfl
  by_cases hsign : ∃ (s : Sign) (tail : List Char), p.rest = s.char :: tail
  · obtain ⟨s, tail, hrest⟩ := hsign
    rw [readOffset_sign hrest, bind_eq_error, readNumber_eq_error, hmax]
    constructor
    · rintro ((⟨hnone, he⟩ | ⟨hgreat, he⟩) | ⟨n, -, h⟩)
      · exact ⟨s, tail, hrest, _, .number (.inr rfl) hnone, he⟩
      · exact ⟨s, tail, hrest, _, .smallerOffset hgreat, he⟩
      · cases h
    · rintro ⟨-, -, -, x, hx, he⟩
      cases hx with
      | number _ hnone => exact .inl (.inl ⟨hnone, he⟩)
      | smallerOffset hgreat => exact .inl (.inr ⟨hgreat, he⟩)
      | smaller hpart => simp at hpart
      | nonZero hpart => simp at hpart
  · rw [readOffset_none hd (by simpa using hsign)]
    simp only [reduceCtorEq, false_iff]
    rintro ⟨s, tail, hrest, -⟩
    exact hsign ⟨s, tail, hrest⟩

end Dice.Notation
