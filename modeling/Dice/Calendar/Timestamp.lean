import Dice.Calendar.Date

namespace Dice.Calendar

/-!
# Points in time

A point in time is a day and a time of day, both in universal time.

* `TimeOfDay`, `Timestamp` — the parts, each in its range.
* `Timestamp.ofEpoch?` — the point some seconds after the start of 1970.
-/

/-- A time of day.  The last minute before a leap second has 61 seconds, so a second may be 60. -/
structure TimeOfDay where
  /-- The hour. -/
  hour : Nat
  /-- The minute. -/
  minute : Nat
  /-- The second. -/
  second : Nat
  /-- The billionths of a second. -/
  nanos : Nat
  /-- A day has 24 hours. -/
  hour_lt : hour < 24 := by omega
  /-- An hour has 60 minutes. -/
  minute_lt : minute < 60 := by omega
  /-- A minute has 60 seconds, or 61. -/
  second_le : second ≤ 60 := by omega
  /-- A second has a billion billionths. -/
  nanos_lt : nanos < 1000000000 := by omega
deriving DecidableEq, Repr

/-- The years that have points in time. -/
def minYear : Int := -262143

@[inherit_doc minYear] def maxYear : Int := 262142

/-- A point in time. -/
structure Timestamp where
  /-- The day. -/
  date : Date
  /-- The time of the day. -/
  time : TimeOfDay
  /-- The year is not too far away. -/
  year_le : minYear ≤ date.year ∧ date.year ≤ maxYear
deriving DecidableEq, Repr

/-- The time of day with some hours, minutes, seconds and billionths, if there is one. -/
def TimeOfDay.of? (hour minute second nanos : Nat) : Option TimeOfDay :=
  if h : hour < 24 ∧ minute < 60 ∧ second ≤ 60 ∧ nanos < 1000000000 then
    some { hour, minute, second, nanos }
  else none

/-- The time of day is found from its parts. -/
@[simp] theorem TimeOfDay.of?_self (t : TimeOfDay) :
    of? t.hour t.minute t.second t.nanos = some t :=
  dif_pos ⟨t.hour_lt, t.minute_lt, t.second_le, t.nanos_lt⟩

namespace Timestamp

/-- The point in time of a day and a time of day, if the year is not too far away. -/
def of? (date : Date) (time : TimeOfDay) : Option Timestamp :=
  if h : minYear ≤ date.year ∧ date.year ≤ maxYear then some ⟨date, time, h⟩ else none

/-- The point in time is found from its parts. -/
@[simp] theorem of?_self (t : Timestamp) : of? t.date t.time = some t :=
  dif_pos t.year_le

/-- The start of the year 1970. -/
def epoch : Timestamp where
  date := { year := 1970, month := 1, day := 1, day_le := by decide }
  time := { hour := 0, minute := 0, second := 0, nanos := 0 }
  year_le := by decide

instance : Inhabited Timestamp := ⟨epoch⟩

/-- The point some seconds and billionths after the start of 1970. -/
def ofEpoch? (seconds : Int) (nanos : Nat) : Option Timestamp := do
  let date ← Date.ofEpochDays? (seconds / 86400)
  let ofDay := (seconds % 86400).toNat
  let time ← TimeOfDay.of? (ofDay / 3600) (ofDay / 60 % 60) (ofDay % 60) nanos
  of? date time

end Timestamp

end Dice.Calendar
