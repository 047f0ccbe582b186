import Dice.Law
import Dice.Notation.Written
import Dice.Session.History
import Dice.View.Histogram

namespace Dice

open Dice.Text Dice.Decimal

/-!
# What is told about a pool and a roll

* `Law.summary` — bounds, mean and standard deviation of a pool.
* `Law.shown` — that line with the histogram below it.
* `Record.text` — a roll that was made.
-/

/-- The line about the law of a pool. -/
def Law.summary (p : Pool) (l : Law Float) : String :=
  p.text ++ ": " ++ integer l.lowest ++ " to " ++ integer l.highest ++ ", mean " ++
    fixedText 2 l.distribution.mean ++ ", std dev " ++ fixedText 2 l.distribution.stdDev

/-- The law of a pool as it is shown: a line about it, and its histogram. -/
def Law.shown (p : Pool) (l : Law Float) (width : Nat) : String :=
  l.summary p ++ "\n" ++ View.histogram l.distribution width

/-- The line about a roll that was made. -/
def Record.text (r : Record) : String :=
  r.raw ++ " = " ++ integer r.outcome ++ " " ++ facesText r.faces ++ " (" ++
    Drawn.percentage r.probability ++ ")"

end Dice
