import Dice.Notation.Reader
import Mathlib.Algebra.Group.Nat.Defs
import Mathlib.Data.List.Basic
import Mathlib.Data.List.TakeWhile

namespace Dice.Notation

open Dice.Text

/-!
# What the parts of the reader accept

Every part of the reader of dice notation looks at the digits or at the character at its place, and
goes on after them.  This file says, for each part, exactly when it succeeds and with what.

* `IsRun`, `digitRun_append` — runs of ASCII digits, and where such a run ends.
* `Sign` — the sign of an offset, the character of it and what it makes of a number.
* `readNumber_eq_ok`, `readPositive_eq_ok` — numbers that are small enough.
* `readCount_eq_ok`, `readMode_eq_ok`, `readFaces_eq_ok`, `readOffset_sign`, `readOffset_none` — the
  four parts.
* `readChars_eq_ok` — a whole text.
-/

/-! ### Runs of digits -/

/-- Only ASCII digits. -/
def IsRun (run : List Char) : Prop := ∀ c ∈ run, c.isDigit = true

/-- The digits that a text starts with are digits. -/
theorem isRun_digitRun (text : List Char) : IsRun (digitRun text) :=
  fun _ h => isDigit_of_mem_digitRun h

/-- Digits followed by digits are digits. -/
theorem IsRun.append {run more : List Char} (hrun : IsRun run) (hmore : IsRun more) :
    IsRun (run ++ more) := by
  intro c hc
  rcases List.mem_append.mp hc with hc | hc
  · exact hrun c hc
  · exact hmore c hc

/-- The digits of a number are digits. -/
theorem isRun_toDigits (n : Nat) : IsRun (Nat.toDigits 10 n) :=
  fun _ hc => Nat.isDigit_of_mem_toDigits (by decide) (by decide) hc

/-- A number is written with digits only. -/
theorem isRun_natural (n : Nat) : IsRun (natural n).toList := by
  rw [toList_natural]
  exact isRun_toDigits n

/-- A number is written with one digit at least. -/
theorem natural_ne_nil (n : Nat) : (natural n).toList ≠ [] := by
  rw [toList_natural]
  exact Nat.toDigits_ne_nil

/-- No digits are left after the digits that a text starts with. -/
@[simp] theorem digitRun_afterRun (text : List Char) : digitRun (afterRun text) = [] := by
  rw [digitRun, List.takeWhile_eq_nil_iff]
  intro hl hd
  exact List.dropWhile_get_zero_not Char.isDigit text hl hd

/-- A run of digits ends where no digit follows. -/
theorem digitRun_append {run rest : List Char} (hrun : IsRun run) (hrest : digitRun rest = []) :
    digitRun (run ++ rest) = run := by
  unfold digitRun at *
  rw [List.takeWhile_append_of_pos hrun, hrest, List.append_nil]

/-- What follows a run of digits is left after it. -/
theorem afterRun_append {run rest : List Char} (hrun : IsRun run) (hrest : digitRun rest = []) :
    afterRun (run ++ rest) = rest := by
  have h := digitRun_append_afterRun (run ++ rest)
  rw [digitRun_append hrun hrest] at h
  exact List.append_cancel_left h

/-- A text of digits only is its own run. -/
theorem IsRun.digitRun_eq {run : List Char} (h : IsRun run) : digitRun run = run := by
  have hrun : digitRun (run ++ []) = run := digitRun_append h rfl
  rwa [List.append_nil] at hrun

/-- Nothing is left after a text of digits only. -/
theorem IsRun.afterRun_eq {run : List Char} (h : IsRun run) : afterRun run = [] := by
  have hrest : afterRun (run ++ []) = [] := afterRun_append h rfl
  rwa [List.append_nil] at hrest

/-- A letter is not a digit. -/
@[simp] theorem digitRun_letter_cons (m : Mode) (rest : List Char) :
    digitRun (m.letter :: rest) = [] := by
  cases m <;> rfl

/-! ### Signs -/

/-- The sign of an offset. -/
inductive Sign where
  /-- The offset is added. -/
  | plus
  /-- The offset is taken away. -/
  | minus
deriving DecidableEq

namespace Sign

/-- The character of a sign. -/
def char : Sign → Char
  | plus => '+'
  | minus => '-'

/-- A number with a sign. -/
def signed : Sign → Nat → Int
  | plus, n => n
  | minus, n => -n

/-- The signs have different characters. -/
theorem char_injective : Function.Injective char := by
  intro s t h
  cases s <;> cases t <;> simp_all [char]

/-- A sign is not a digit. -/
@[simp] theorem digitRun_char_cons (s : Sign) (rest : List Char) :
    digitRun (s.char :: rest) = [] := by
  cases s <;> rfl

/-- The word that a sign makes of a number. -/
def word : Sign → Nat → Int32
  | plus, n => Int32.ofNat n
  | minus, n => -Int32.ofNat n

/-- A number of 31 bits keeps its value with either sign. -/
theorem toInt_word (s : Sign) {n : Nat} (h : n ≤ 2 ^ 31 - 1) :
    (s.word n).toInt = s.signed n := by
  cases s with
  | plus => exact Int32.toInt_ofNat_of_lt (by omega)
  | minus =>
    show (-Int32.ofNat n).toInt = -(n : Int)
    rw [← Int32.ofInt_eq_ofNat, Int32.neg_ofInt, Int32.toInt_ofInt_of_le (by omega) (by omega)]

end Sign

/-! ### What each part of the reader accepts -/

/-- Two steps succeed if the first gives what the second succeeds with. -/
theorem bind_eq_ok {α β : Type} {x : Except Stop α} {f : α → Except Stop β} {b : β} :
    (x >>= f) = .ok b ↔ ∃ a, x = .ok a ∧ f a = .ok b := by
  cases x with
  | error e => simp [bind, Except.bind]
  | ok a => simp [bind, Except.bind]

/-- A number is a run of digits that is not empty and not too great. -/
theorem readNumber_eq_ok {limit n : Nat} {p : Place} :
    readNumber limit p = .ok n ↔ p.digits ≠ [] ∧ value p.digits ≤ limit ∧ value p.digits = n := by
  unfold readNumber
  split
  · simp [*]
  · split <;> simp [*]

/-- A positive number is one that is not zero either. -/
theorem readPositive_eq_ok {n : UInt32} {p : Place} :
    readPositive p = .ok n ↔
      p.digits ≠ [] ∧ (1 ≤ value p.digits ∧ value p.digits ≤ 2 ^ 32 - 1) ∧
        n.toNat = value p.digits := by
  unfold readPositive
  rw [bind_eq_ok]
  constructor
  · rintro ⟨k, hk, h⟩
    obtain ⟨hne, hle, rfl⟩ := readNumber_eq_ok.mp hk
    split at h
    · cases h
    · rename_i hpos
      cases h
      simp only [maxCount, UInt32.size] at hle
      -- The word is made from the number, and the number is small enough to come back from it.
      refine ⟨hne, ⟨by omega, hle⟩, ?_⟩
      rw [UInt32.toNat_ofNat_of_lt' (by simp only [UInt32.size]; omega)]
  · rintro ⟨hne, ⟨hpos, hle⟩, hn⟩
    refine ⟨value p.digits, readNumber_eq_ok.mpr ⟨hne, hle, rfl⟩, ?_⟩
    rw [if_neg (by omega), ← hn, UInt32.ofNat_toNat]

/-- No digits are left after the digits at a place. -/
@[simp] theorem Place.digits_afterDigits (p : Place) : p.afterDigits.digits = [] :=
  digitRun_afterRun p.rest

/-- Reading no digits stays at the place. -/
theorem Place.afterDigits_of_digits_eq_nil {p : Place} (h : p.digits = []) : p.afterDigits = p := by
  have hrest : p.digits ++ afterRun p.rest = p.rest := digitRun_append_afterRun p.rest
  rw [h, List.nil_append] at hrest
  rw [Place.afterDigits, hrest]

/-- The number of dice is left out where there are no digits. -/
theorem readCount_eq_ok {n : UInt32} {p q : Place} :
    readCount p = .ok (n, q) ↔
      q = p.afterDigits ∧
        (p.digits ≠ [] → 1 ≤ value p.digits ∧ value p.digits ≤ 2 ^ 32 - 1) ∧
        n.toNat = if p.digits = [] then 1 else value p.digits := by
  unfold readCount
  split
  · -- Nothing is read, which is the same as reading the digits that are not there.
    rename_i hd
    rw [Place.afterDigits_of_digits_eq_nil hd]
    constructor
    · intro h
      cases h
      simp [hd]
    · rintro ⟨rfl, -, hn⟩
      have hone : n = 1 := UInt32.toNat.inj hn
      rw [hone]
  · rename_i hd
    rw [bind_eq_ok]
    constructor
    · rintro ⟨m, hm, h⟩
      cases h
      obtain ⟨-, hrange, hn⟩ := readPositive_eq_ok.mp hm
      exact ⟨rfl, fun _ => hrange, hn⟩
    · rintro ⟨rfl, hrange, hn⟩
      exact ⟨n, readPositive_eq_ok.mpr ⟨hd, hrange hd, hn⟩, rfl⟩

/-- The letter is one of the two. -/
theorem readMode_eq_ok {m : Mode} {p q : Place} :
    readMode p = .ok (m, q) ↔ p.rest.head? = some m.letter ∧ q = p.next := by
  unfold readMode
  cases hrest : p.rest with
  | nil => simp
  | cons c tail =>
    simp only [List.head?_cons, Option.bind_some, Option.some.injEq]
    constructor
    · intro h
      split at h
      · rename_i mode hc
        cases h
        exact ⟨Mode.eq_letter_of_ofLetter? hc, rfl⟩
      · cases h
    · rintro ⟨rfl, rfl⟩
      rw [Mode.ofLetter?_letter]

/-- The number of faces is never left out. -/
theorem readFaces_eq_ok {n : UInt32} {p q : Place} :
    readFaces p = .ok (n, q) ↔
      q = p.afterDigits ∧ p.digits ≠ [] ∧
        (1 ≤ value p.digits ∧ value p.digits ≤ 2 ^ 32 - 1) ∧ n.toNat = value p.digits := by
  unfold readFaces
  rw [bind_eq_ok]
  constructor
  · rintro ⟨m, hm, h⟩
    cases h
    exact ⟨rfl, readPositive_eq_ok.mp hm⟩
  · rintro ⟨rfl, h⟩
    exact ⟨n, readPositive_eq_ok.mpr h, rfl⟩

/-- After a sign there must be a number. -/
theorem readOffset_sign {p : Place} {s : Sign} {tail : List Char} (h : p.rest = s.char :: tail) :
    readOffset p =
      (readNumber maxOffset p.next >>= fun n => .ok (s.word n, p.next.afterDigits)) := by
  unfold readOffset
  cases s <;> simp only [h, Sign.char, Sign.word]

/-- Without a sign and without digits there is no offset. -/
theorem readOffset_none {p : Place} (hd : p.digits = [])
    (h : ∀ (s : Sign) (tail : List Char), p.rest ≠ s.char :: tail) : readOffset p = .ok (0, p) := by
  unfold readOffset
  -- Only the last alternative is left, and it reads a number only where there are digits.
  split
  · rename_i hrest
    exact absurd hrest (h .plus _)
  · rename_i hrest
    exact absurd hrest (h .minus _)
  · rw [if_pos hd]

/-- The four parts of a text are read one after the other, and nothing is left. -/
theorem readParts_eq_ok {text : List Char} {pool : Pool} :
    readParts text = .ok pool ↔
      ∃ p q r, readCount ⟨text⟩ = .ok (pool.count, p) ∧ readMode p = .ok (pool.mode, q) ∧
        readFaces q = .ok (pool.faces, r) ∧
        ∃ e, readOffset r = .ok (pool.offset, e) ∧ e.rest = [] := by
  unfold readParts
  constructor
  · intro h
    obtain ⟨⟨count, p⟩, hcount, h⟩ := bind_eq_ok.mp h
    obtain ⟨⟨mode, q⟩, hmode, h⟩ := bind_eq_ok.mp h
    obtain ⟨⟨faces, r⟩, hfaces, h⟩ := bind_eq_ok.mp h
    obtain ⟨⟨offset, e⟩, hoffset, h⟩ := bind_eq_ok.mp h
    simp only at h
    -- All four parts were found; what is left decides.
    split at h
    · rename_i hend
      cases h
      exact ⟨p, q, r, hcount, hmode, hfaces, e, hoffset, hend⟩
    · cases h
  · rintro ⟨p, q, r, hcount, hmode, hfaces, e, hoffset, hend⟩
    refine bind_eq_ok.mpr ⟨_, hcount, bind_eq_ok.mpr ⟨_, hmode, bind_eq_ok.mpr ⟨_, hfaces,
      bind_eq_ok.mpr ⟨_, hoffset, ?_⟩⟩⟩⟩
    simp only
    rw [if_pos hend]

/-- Finding the fault does not change what is read without one. -/
theorem readChars_eq_ok_iff {text : List Char} {pool : Pool} :
    readChars text = .ok pool ↔ readParts text = .ok pool := by
  rw [readChars]
  cases readParts text <;> simp [Except.mapError]

/-- The reader accepts a text if it reads the four parts one after the other and nothing is left. -/
theorem readChars_eq_ok {text : List Char} {pool : Pool} :
    readChars text = .ok pool ↔
      ∃ p q r, readCount ⟨text⟩ = .ok (pool.count, p) ∧ readMode p = .ok (pool.mode, q) ∧
        readFaces q = .ok (pool.faces, r) ∧
        ∃ e, readOffset r = .ok (pool.offset, e) ∧ e.rest = [] :=
  readChars_eq_ok_iff.trans readParts_eq_ok

end Dice.Notation
