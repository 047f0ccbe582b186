import Dice.Decimal.Rounding
import Dice.Text.Digits

namespace Dice.Decimal

open Float.Model Dice.Text

/-!
# Floats with a fixed number of places

* `placedText` — a number of units of the last place, with its point.
* `fixedText` — a float rounded to some places.  The exact value is rounded, a half going to the
  even neighbour; the sign is kept where the digits are all zero.
-/

/-- As many zeros as fill a run of digits to a width, and the run. -/
def zeroPadded (width : Nat) (n : Nat) : String :=
  let digits := Nat.toDigits 10 n
  String.ofList (List.replicate (width - digits.length) '0' ++ digits)

/-- A number of units of the last place, with a point before that many places. -/
def placedText (places : Nat) (units : Nat) : String :=
  natural (units / Nat.pow 10 places) ++ "." ++ zeroPadded places (units % Nat.pow 10 places)

/-- A float rounded to some places after the point. -/
def fixedText (places : Nat) (x : Float) : String :=
  match x.toModel.unpack with
  | .notANumber => "NaN"
  | .infinity s => signText s ++ "inf"
  | .zero s => signText s ++ placedText places 0
  | .finite s m e _ =>
    signText s ++ placedText places
      (roundEven (m * Nat.pow 2 e.toNat * Nat.pow 10 places) (Nat.pow 2 (-e).toNat))

example : fixedText 1 6.25 = "6.2" ∧ fixedText 1 18.75 = "18.8" ∧ fixedText 2 (-0.001) = "-0.00" ∧
    fixedText 1 1e22 = "10000000000000000000000.0" := by decide +kernel

end Dice.Decimal
