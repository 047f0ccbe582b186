namespace Dice.Text

/-!
# Decimal digits

Whole numbers as text, and runs of ASCII digits as numbers.

* `natural`, `integer` — the shortest decimal text of a number.
* `digitRun`, `afterRun` — the digits a text starts with, and what follows them.
* `value` — the number a run of digits stands for; leading zeros do not count.
-/

/-- A natural number in decimal, without leading zeros. -/
def natural (n : Nat) : String :=
  String.ofList (Nat.toDigits 10 n)

/-- An integer in decimal; only negative numbers carry a sign. -/
def integer (n : Int) : String :=
  if n < 0 then "-" ++ natural n.natAbs else natural n.natAbs

/-- The ASCII digits that a text starts with. -/
def digitRun (text : List Char) : List Char :=
  text.takeWhile Char.isDigit

/-- What follows the digits that a text starts with. -/
def afterRun (text : List Char) : List Char :=
  text.dropWhile Char.isDigit

/-- The number that a run of digits stands for. -/
def value (digits : List Char) : Nat :=
  Nat.ofDigitChars 10 digits 0

/-! ### A text is its digits and the rest -/

/-- The digits at the start of a text and what follows them make up the text. -/
@[simp] theorem digitRun_append_afterRun (text : List Char) :
    digitRun text ++ afterRun text = text :=
  List.takeWhile_append_dropWhile

/-- A run holds digits only. -/
theorem isDigit_of_mem_digitRun {text : List Char} {c : Char} (h : c ∈ digitRun text) :
    c.isDigit = true := by
  unfold digitRun at h
  induction text with
  | nil => simp at h
  | cons d rest ih =>
    by_cases hd : d.isDigit = true
    · rw [List.takeWhile_cons_of_pos hd, List.mem_cons] at h
      rcases h with rfl | h
      · exact hd
      · exact ih h
    · rw [List.takeWhile_cons_of_neg hd] at h
      simp at h

/-! ### Written numbers are read back -/

@[simp] theorem toList_natural (n : Nat) : (natural n).toList = Nat.toDigits 10 n := by
  simp [natural]

/-- The value of a number's decimal text is the number. -/
@[simp] theorem value_natural (n : Nat) : value (natural n).toList = n := by
  simp [value]

end Dice.Text
