import Dice.Decimal.Fixed
import Dice.Weight

namespace Dice

/-!
# Weights to be looked at

* `Drawn` — weights that can be shown as a percentage and as a number of cells.
-/

/-- Weights that can be shown. -/
class Drawn (W : Type) extends Weight W where
  /-- The weight as a part of a hundred. -/
  percentage : W → String
  /-- The whole number nearest to a weight; none is below zero. -/
  whole : W → Nat

/-- Floats are shown with one place. -/
instance : Drawn Float where
  percentage p := Decimal.fixedText 1 (p * 100.0) ++ "%"
  whole := Decimal.wholeWord

/-- Exact weights are shown with one place, a half going to the even neighbour. -/
instance : Drawn Rat where
  percentage p :=
    (if p < 0 then "-" else "") ++
      Decimal.placedText 1 (Decimal.roundEven (1000 * p.num.natAbs) p.den) ++ "%"
  whole p := Decimal.roundUp p.num.toNat p.den

example : Drawn.percentage (1 / 6 : Rat) = "16.7%" ∧ Drawn.percentage (0.25 : Float) = "25.0%" := by
  decide +kernel

end Dice
