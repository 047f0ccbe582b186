namespace Dice.Decimal

/-!
# Rounding quotients

* `roundEven` — the whole number nearest to a quotient; a half goes to the even neighbour.
* `roundUp` — the same, but a half goes up.
* `wholeWord` — the whole number nearest to a float, kept within the words of 64 bits.
-/

open Float.Model in
/-- The sign that a float's text starts with. -/
def signText : UnpackedFloat.Sign → String
  | .negative => "-"
  | .positive => ""

/-- The whole number nearest to a quotient; of two equally near ones the even one. -/
def roundEven (num den : Nat) : Nat :=
  let whole := num / den
  let rest := num % den
  if 2 * rest < den then whole
  else if den < 2 * rest then whole + 1
  else whole + whole % 2

/-- The whole number nearest to a quotient; of two equally near ones the greater. -/
def roundUp (num den : Nat) : Nat :=
  (2 * num + den) / (2 * den)

/-- Rounding is off by half a unit at most. -/
theorem roundEven_near {num den : Nat} (h : 0 < den) :
    2 * num ≤ 2 * (roundEven num den * den) + den ∧
      2 * (roundEven num den * den) ≤ 2 * num + den := by
  have hdiv := Nat.div_add_mod num den
  have hmod := Nat.mod_lt num h
  have hcomm : num / den * den = den * (num / den) := Nat.mul_comm ..
  simp only [roundEven]
  split
  · omega
  · split
    · rw [Nat.add_mul]; omega
    · rcases Nat.mod_two_eq_zero_or_one (num / den) with h2 | h2 <;> rw [h2, Nat.add_mul] <;> omega

/-- The greatest word of 64 bits. -/
def maxWord : Nat := UInt64.size - 1

open Float.Model in
/-- The whole number nearest to a float, a half going away from zero, kept within the words of 64
    bits.  What is negative or no number at all gives 0. -/
def wholeWord (x : Float) : Nat :=
  match x.toModel.unpack with
  | .notANumber => 0
  | .zero _ => 0
  | .infinity .negative => 0
  | .infinity .positive => maxWord
  | .finite .negative _ _ _ => 0
  | .finite .positive m e _ =>
    min (roundUp (m * Nat.pow 2 e.toNat) (Nat.pow 2 (-e).toNat)) maxWord

end Dice.Decimal
