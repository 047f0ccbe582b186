import Dice.Distribution.Basic

namespace Dice.Distribution

/-!
# Questions about a distribution

* `weightOf` — the weight of one outcome.
* `atLeast`, `atMost`, `total` — the weights of one side, and of the whole.
* `mean`, `variance`, `stdDev` — moments.
* `highest`, `mostLikely` — the highest weight, and the first outcome that has the most.
-/

variable {W : Type}

/-- The outcomes that can happen, in ascending order. -/
def outcomes (d : Distribution W) : List Int :=
  d.entries.map (·.1)

/-- The weights in the order of their outcomes. -/
def weights (d : Distribution W) : List W :=
  d.entries.map (·.2)

/-- How many outcomes can happen. -/
def size (d : Distribution W) : Nat :=
  d.entries.length

/-- The least outcome. -/
def least? (d : Distribution W) : Option Int :=
  d.entries.head?.map (·.1)

/-- The greatest outcome. -/
def greatest? (d : Distribution W) : Option Int :=
  d.entries.getLast?.map (·.1)

section Weighing

variable [Weight W]

/-- The weight of an outcome, which is zero if it cannot happen. -/
def weightOf (d : Distribution W) (o : Int) : W :=
  match d.entries.find? (fun e => e.1 == o) with
  | some e => e.2
  | none => Weight.zero

/-- The weight of all outcomes from one on. -/
def atLeast (d : Distribution W) (o : Int) : W :=
  Weight.sum ((d.entries.filter fun e => o ≤ e.1).map (·.2))

/-- The weight of all outcomes up to one. -/
def atMost (d : Distribution W) (o : Int) : W :=
  Weight.sum ((d.entries.filter fun e => e.1 ≤ o).map (·.2))

/-- The weight of everything that can happen. -/
def total (d : Distribution W) : W :=
  Weight.sum d.weights

/-- The sum of the outcomes, each times its weight. -/
def mean (d : Distribution W) : W :=
  Weight.sum (d.entries.map fun e => Weight.ofInt e.1 * e.2)

/-- The sum of the squared distances from the mean, each times its weight. -/
def variance (d : Distribution W) : W :=
  let mean := d.mean
  Weight.sum (d.entries.map fun e =>
    let distance := Weight.ofInt e.1 - mean
    distance * distance * e.2)

/-- The greater of two weights; the first where they do not compare. -/
def greater (v w : W) : W :=
  if v < w then w else v

/-- The highest weight of an outcome, or zero if none is above zero. -/
def highest (d : Distribution W) : W :=
  d.weights.foldl greater Weight.zero

/-- The better of the best entry so far and the next one, which must have more weight to win. -/
def better (best : Option (Int × W)) (e : Int × W) : Option (Int × W) :=
  match best with
  | some b => if e.2 ≤ b.2 then some b else some e
  | none => some e

/-- The outcome with the most weight, the least of several. -/
def mostLikely (d : Distribution W) : Option Int :=
  (d.entries.foldl better none).map (·.1)

end Weighing

/-- The square root of the variance. -/
def stdDev (d : Distribution Float) : Float :=
  d.variance.sqrt

end Dice.Distribution
