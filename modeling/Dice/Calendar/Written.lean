import Dice.Calendar.Timestamp
import Dice.Decimal.Fixed

namespace Dice.Calendar

open Dice.Text Dice.Decimal

/-!
# Writing points in time

The text of a point in time is `2024-02-29T12:30:00.5Z`: date and time of day, with as many places
of the second as keep its value, and `Z` for universal time.

* `yearText`, `fractionText` — a year, and the billionths of a second.
* `Timestamp.text` — a point in time.
-/

/-- A year.  Four digits without a sign are enough for the years 0 to 9999; other years have a
    sign. -/
def yearText (year : Int) : String :=
  if 0 ≤ year ∧ year ≤ 9999 then zeroPadded 4 year.toNat
  else (if year < 0 then "-" else "+") ++ zeroPadded 4 year.natAbs

/-- The billionths of a second in thousandths, millionths or billionths, whichever is the first to
    keep the value; nothing for none. -/
def fractionText (nanos : Nat) : String :=
  if nanos = 0 then ""
  else if nanos % 1000000 = 0 then "." ++ zeroPadded 3 (nanos / 1000000)
  else if nanos % 1000 = 0 then "." ++ zeroPadded 6 (nanos / 1000)
  else "." ++ zeroPadded 9 nanos

/-- A date. -/
def Date.text (d : Date) : String :=
  yearText d.year ++ "-" ++ zeroPadded 2 d.month ++ "-" ++ zeroPadded 2 d.day

/-- A time of day. -/
def TimeOfDay.text (t : TimeOfDay) : String :=
  zeroPadded 2 t.hour ++ ":" ++ zeroPadded 2 t.minute ++ ":" ++ zeroPadded 2 t.second ++
    fractionText t.nanos

/-- A point in time. -/
def Timestamp.text (t : Timestamp) : String :=
  t.date.text ++ "T" ++ t.time.text ++ "Z"

example : Timestamp.epoch.text = "1970-01-01T00:00:00Z" := by decide +kernel

end Dice.Calendar
