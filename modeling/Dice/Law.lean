import Dice.Distribution.Convolution
import Dice.Distribution.Query
import Dice.Pool

namespace Dice

/-!
# The law of a pool

* `Law` — the bounds of a pool's totals and their distribution.
* `Pool.totals` — the distribution, as the sum of independent dice.
* `Pool.law` — both together.
-/

/-- What there is to know about the totals of a pool. -/
structure Law (W : Type) where
  /-- The least total. -/
  lowest : Int
  /-- The greatest total. -/
  highest : Int
  /-- The weight of every total. -/
  distribution : Distribution W
deriving Inhabited

/-- Laws agree if their bounds are equal and their distributions agree. -/
instance {W : Type} [BEq W] : BEq (Law W) where
  beq l m := l.lowest == m.lowest && l.highest == m.highest && l.distribution == m.distribution

namespace Pool

variable {W : Type} [Weight W]

/-- The distribution of the sum of several equal dice: of one die, with the others added one after
    the other. -/
def sumOfDice (faces : Nat) (count : Nat) : Distribution W :=
  let die := Distribution.uniform faces
  Nat.repeat (fun d => d.convolve die) (count - 1) die

/-- One die is not added to anything. -/
@[simp] theorem sumOfDice_one (faces : Nat) :
    sumOfDice faces 1 = (Distribution.uniform faces : Distribution W) := rfl

/-- Each further die is added to the sum of those before it. -/
theorem sumOfDice_succ (faces count : Nat) :
    (sumOfDice faces (count + 2) : Distribution W) =
      (sumOfDice faces (count + 1)).convolve (Distribution.uniform faces) := rfl

/-- The distribution of a pool's totals: the dice are added, and the sum is moved by the offset.
    A pool without dice is taken for one with a single die. -/
def totals (p : Pool) : Distribution W :=
  (sumOfDice p.faces.toNat p.count.toNat).shift p.offset.toInt

/-- The bounds of a pool's totals and their distribution. -/
def law (p : Pool) : Law W where
  lowest := p.lowest
  highest := p.highest
  distribution := p.totals

end Pool

end Dice
