import Dice.Decimal.Fixed
import Dice.Proofs.Notation.Parts

namespace Dice.Decimal

open Dice.Notation Dice.Text

/-!
# Written digits

* `value_toDigits`, `leading_toDigits` — the digits of a number, without leading zeros.
* `isRun_zeroPadded`, `length_zeroPadded`, `value_zeroPadded` — digits with zeros in front of them.
* `trimZeros`, `toDigits_value` — digits without zeros in front, which are those of their value.
-/

/-! ### The digits of a number -/

/-- The digits of a number have its value. -/
theorem value_toDigits (n : Nat) : value (Nat.toDigits 10 n) = n := Nat.ofDigitChars_ten_toDigits

/-- The digits of a number do not start with a zero, unless the number is zero. -/
theorem head?_toDigits {n : Nat} (h : 0 < n) : (Nat.toDigits 10 n).head? ≠ some '0' := by
  induction n using Nat.strongRecOn with
  | ind n ih =>
    by_cases hsmall : n < 10
    · have hdigit : ∀ k < 10, 0 < k → Nat.digitChar k ≠ '0' := by decide
      rw [Nat.toDigits_of_lt_base hsmall]
      simpa using hdigit n hsmall h
    · have hsplit := Nat.toDigits_append_toDigits (b := 10) (n := n / 10) (d := n % 10) (by omega)
        (by omega) (by omega)
      rw [Nat.div_add_mod] at hsplit
      rw [← hsplit, List.head?_append_of_ne_nil _ Nat.toDigits_ne_nil]
      exact ih (n / 10) (by omega) (by omega)

/-- Only the digits of zero start with a zero. -/
theorem leading_toDigits (n : Nat) :
    (Nat.toDigits 10 n).head? = some '0' → Nat.toDigits 10 n = ['0'] := by
  intro hhead
  rcases Nat.eq_zero_or_pos n with rfl | hpos
  · rfl
  · exact absurd hhead (head?_toDigits hpos)

/-! ### Zeros in front -/

/-- Zeros fill the field before the digits. -/
theorem toList_zeroPadded (width n : Nat) :
    (zeroPadded width n).toList =
      List.replicate (width - (Nat.toDigits 10 n).length) '0' ++ Nat.toDigits 10 n := by
  simp [zeroPadded]

/-- A number with zeros before it is written with digits only. -/
theorem isRun_zeroPadded (width n : Nat) : IsRun (zeroPadded width n).toList := by
  rw [toList_zeroPadded]
  refine IsRun.append (fun c hc => ?_) (isRun_toDigits n)
  obtain rfl := List.eq_of_mem_replicate hc
  decide

theorem zeroPadded_ne_nil (width n : Nat) : (zeroPadded width n).toList ≠ [] := by
  rw [toList_zeroPadded]
  exact List.append_ne_nil_of_right_ne_nil _ Nat.toDigits_ne_nil

/-- Zeros in front of a number do not count. -/
@[simp] theorem value_zeroPadded (width n : Nat) : value (zeroPadded width n).toList = n := by
  rw [toList_zeroPadded, value, Nat.ofDigitChars_append, Nat.ofDigitChars_replicate_zero,
    Nat.mul_zero, Nat.ofDigitChars_ten_toDigits]

/-- A number that fits its field fills it. -/
theorem length_zeroPadded {width n : Nat} (hwidth : 0 < width) (h : n < 10 ^ width) :
    (zeroPadded width n).toList.length = width := by
  have hdigits := (Nat.length_toDigits_le_iff (b := 10) (by decide) hwidth).mpr h
  rw [toList_zeroPadded, List.length_append, List.length_replicate]
  omega

/-! ### Zeros taken away -/

/-- Digits without leading zeros; of zero nothing is left. -/
def trimZeros (run : List Char) : List Char :=
  run.dropWhile (· == '0')

/-- Leading zeros do not count. -/
theorem value_trimZeros (run : List Char) : value (trimZeros run) = value run := by
  induction run with
  | nil => rfl
  | cons c rest ih =>
    by_cases hc : c = '0'
    · rw [trimZeros, List.dropWhile_cons_of_pos (by simpa using hc), hc]
      exact ih
    · rw [trimZeros, List.dropWhile_cons_of_neg (by simpa using hc)]

/-- A digit is the digit of a number below ten. -/
theorem exists_digitChar {c : Char} (h : c.isDigit = true) : ∃ k < 10, Nat.digitChar k = c := by
  obtain ⟨hlow, hhigh⟩ := Char.isDigit_iff_toNat.mp h
  have hlast : '9'.toNat = '0'.toNat + 9 := by decide
  refine ⟨c.toNat - '0'.toNat, by omega, Char.toNat_inj.mp ?_⟩
  rw [Nat.toNat_digitChar_of_lt_ten (by omega)]
  exact Nat.add_sub_of_le hlow

/-- What is left starts with a digit that is not zero. -/
theorem exists_trimZeros_eq {run : List Char} (h : IsRun run) (hne : trimZeros run ≠ []) :
    ∃ k rest, (0 < k ∧ k < 10) ∧ IsRun rest ∧ trimZeros run = Nat.digitChar k :: rest := by
  obtain ⟨c, rest, hcons⟩ := List.exists_cons_of_ne_nil hne
  have hrun : IsRun (c :: rest) := fun d hd =>
    h d ((List.dropWhile_sublist _).subset (show d ∈ trimZeros run from hcons ▸ hd))
  have hzero : c ≠ '0' := by
    have hhead := List.head?_dropWhile_not (· == '0') run
    rw [show run.dropWhile (· == '0') = c :: rest from hcons] at hhead
    simpa using hhead
  obtain ⟨k, hk, rfl⟩ := exists_digitChar (hrun c List.mem_cons_self)
  refine ⟨k, rest, ⟨?_, hk⟩, fun d hd => hrun d (List.mem_cons_of_mem _ hd), hcons⟩
  by_contra hkzero
  obtain rfl : k = 0 := by omega
  exact hzero rfl

/-- Nothing is left exactly of zero. -/
theorem trimZeros_eq_nil_iff {run : List Char} (h : IsRun run) :
    trimZeros run = [] ↔ value run = 0 := by
  rw [← value_trimZeros run]
  constructor
  · intro hnil
    rw [hnil]
    rfl
  · intro hzero
    by_contra hne
    obtain ⟨k, rest, ⟨hpos, hten⟩, -, hrest⟩ := exists_trimZeros_eq h hne
    rw [hrest, value, Nat.ofDigitChars_cons_digitChar_of_lt_ten hten,
      Nat.ofDigitChars_eq_ofDigitChars_zero] at hzero
    have hfirst : 0 < 10 ^ rest.length * (10 * 0 + k) :=
      Nat.mul_pos (Nat.pow_pos (by decide)) (by omega)
    omega

/-- Digits after those of a positive number are the digits of a greater number. -/
theorem toDigits_append {run : List Char} (h : IsRun run) {n : Nat} (hn : 0 < n) :
    Nat.toDigits 10 n ++ run = Nat.toDigits 10 (Nat.ofDigitChars 10 run n) := by
  induction run generalizing n with
  | nil => simp
  | cons c rest ih =>
    obtain ⟨k, hk, rfl⟩ := exists_digitChar (h c List.mem_cons_self)
    have hrest : IsRun rest := fun d hd => h d (List.mem_cons_of_mem _ hd)
    rw [Nat.ofDigitChars_cons_digitChar_of_lt_ten hk, ← ih hrest (by omega),
      ← Nat.toDigits_append_toDigits (by decide) hn hk, Nat.toDigits_of_lt_base hk,
      List.append_assoc, List.singleton_append]

/-- The digits of a positive value are those that it is read from, without leading zeros. -/
theorem toDigits_value {run : List Char} (h : IsRun run) (hpos : 0 < value run) :
    Nat.toDigits 10 (value run) = trimZeros run := by
  have hne : trimZeros run ≠ [] := fun hnil => by
    rw [(trimZeros_eq_nil_iff h).mp hnil] at hpos
    exact absurd hpos (Nat.lt_irrefl 0)
  obtain ⟨k, rest, ⟨hk, hten⟩, hrest, heq⟩ := exists_trimZeros_eq h hne
  rw [← value_trimZeros, heq, value, Nat.ofDigitChars_cons_digitChar_of_lt_ten hten, Nat.mul_zero,
    Nat.zero_add, ← toDigits_append hrest hk, Nat.toDigits_of_lt_base hten, List.singleton_append]

end Dice.Decimal
