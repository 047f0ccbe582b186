namespace Dice

/-!
# Weights

The numbers that distributions weigh outcomes with.  Every operation on distributions is written
once for all kinds of weights, so that the law computed with `Float` and the exact law over `Rat`
are the same program.

* `Weight` — the arithmetic that distributions use.
* `Weight.sum` — adding up a list from left to right.
-/

/-- The arithmetic of weights.  Nothing is assumed of the operations. -/
class Weight (W : Type) extends Add W, Sub W, Mul W, Div W, LE W, LT W where
  /-- Where the accumulation of one outcome's weight starts, and the weight of what cannot
      happen. -/
  zero : W
  /-- The sum of no weights. -/
  emptySum : W
  /-- The weight of a whole number. -/
  ofInt : Int → W
  /-- Weights are compared by `≤` when the most likely outcome is looked for. -/
  decLe : DecidableLE W
  /-- Weights are compared by `<` when the highest weight is looked for. -/
  decLt : DecidableLT W

namespace Weight

instance {W : Type} [Weight W] : DecidableLE W := decLe

instance {W : Type} [Weight W] : DecidableLT W := decLt

/-- The sum of a list, added up from left to right. -/
@[specialize] def sum {W : Type} [Weight W] (weights : List W) : W :=
  weights.foldl (· + ·) emptySum

/-- Floating-point weights.  The sum of nothing is negative zero, which is neutral for addition
    where positive zero is not. -/
instance : Weight Float where
  zero := 0.0
  emptySum := -0.0
  ofInt := Float.ofInt
  decLe := inferInstance
  decLt := inferInstance

/-- Exact weights. -/
instance : Weight Rat where
  zero := 0
  emptySum := 0
  ofInt := fun n => n
  decLe := inferInstance
  decLt := inferInstance

end Weight

end Dice
