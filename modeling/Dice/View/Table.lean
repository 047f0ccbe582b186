import Dice.Session.History
import Dice.View.Color
import Dice.View.Histogram

namespace Dice.View

open Dice.Text

/-!
# The table of past rolls

A header and one row for each record, newest first.  Every column is as wide as its widest cell,
and two blanks stand between columns.  In color, the first cell of a row has the color of its
label; nothing else differs.

* `TableRow`, `TableRow.ofRecord` — the cells of a row.
* `tableLine` — the line of a row.
* `historyTable` — the whole table.
-/

/-- The cells of a row. -/
structure TableRow where
  /-- What was rolled. -/
  dice : String
  /-- What came up. -/
  result : String
  /-- How likely it was. -/
  chance : String
deriving DecidableEq, Repr

/-- The cells of the header. -/
def tableHeader : TableRow := ⟨"Dice", "Result", "Chance"⟩

/-- The cells of a record. -/
def TableRow.ofRecord (r : Record) : TableRow :=
  ⟨r.raw, integer r.outcome, Drawn.percentage r.probability⟩

/-- The line of a row whose first cells have some widths.  The first cell is dressed after it is
    padded. -/
def tableLine (dress : String → String) (diceWidth resultWidth : Nat) (row : TableRow) : String :=
  dress (padRight diceWidth row.dice) ++ "  " ++ padRight resultWidth row.result ++ "  " ++
    row.chance

/-- The lines of a table, its header first. -/
def tableLines (color : Bool) (rows : List TableRow) : List String :=
  let diceWidth := widest ((tableHeader :: rows).map (·.dice))
  let resultWidth := widest ((tableHeader :: rows).map (·.result))
  tableLine id diceWidth resultWidth tableHeader ::
    rows.map fun row =>
      tableLine (if color then colored (labelColor row.dice) else id) diceWidth resultWidth row

/-- The table of past rolls. -/
def historyTable (color : Bool) (h : History) : String :=
  unlines (tableLines color (h.records.map .ofRecord))

end Dice.View
