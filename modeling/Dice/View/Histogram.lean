import Dice.Distribution.Query
import Dice.Text.Cells
import Dice.View.Percentage

namespace Dice.View

open Dice.Text

/-!
# Histograms

One line for each outcome, in ascending order: the outcome, a bar, and the percentage.  The bar of
the highest weight fills its field.

* `filledCells` — the length of a bar.
* `histogramLine`, `histogram` — one line, and all of them.
-/

variable {W : Type} [Drawn W]

/-- How many cells of a bar are filled: the part that a weight is of the highest one, of the width
    of the field.  Where nothing weighs more than zero, no cell is filled. -/
def filledCells (highest : W) (width : Nat) (w : W) : Nat :=
  let part := if Weight.zero < highest then w / highest else Weight.zero
  Drawn.whole (part * Weight.ofInt width)

/-- A bar. -/
def bar (filled : Nat) : String :=
  String.ofList (List.replicate filled '█')

/-- The line of an outcome. -/
def histogramLine (labelWidth : Nat) (highest : W) (width : Nat) (e : Int × W) : String :=
  padLeft labelWidth (integer e.1) ++ " │" ++ padRight width (bar (filledCells highest width e.2)) ++
    " " ++ Drawn.percentage e.2

/-- The width of the widest of some texts. -/
def widest (texts : List String) : Nat :=
  (texts.map cells).foldl max 0

/-- The lines of a histogram. -/
def histogramLines (d : Distribution W) (width : Nat) : List String :=
  let highest := d.highest
  let labelWidth := widest (d.outcomes.map integer)
  d.entries.map (histogramLine labelWidth highest width)

/-- Texts as lines, each with its end. -/
def unlines (lines : List String) : String :=
  String.join (lines.map (· ++ "\n"))

/-- The histogram of a distribution. -/
def histogram (d : Distribution W) (width : Nat) : String :=
  unlines (histogramLines d width)

end Dice.View
