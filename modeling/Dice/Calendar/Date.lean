namespace Dice.Calendar

/-!
# Dates

Days of the proleptic Gregorian calendar, with year 0 before year 1.

* `isLeap`, `daysIn` — the lengths of months.
* `Date` — a day, with the proof that its month has it.
* `Date.next`, `Date.previous` — the days beside it.
-/

/-- Whether a year has a 29th of February. -/
def isLeap (year : Int) : Bool :=
  year % 4 == 0 && (year % 100 != 0 || year % 400 == 0)

/-- How many days a month has. -/
def daysIn (year : Int) (month : Nat) : Nat :=
  match month with
  | 2 => if isLeap year then 29 else 28
  | 4 | 6 | 9 | 11 => 30
  | _ => 31

/-- Every month has at least 28 days. -/
theorem daysIn_pos (year : Int) (month : Nat) : 28 ≤ daysIn year month := by
  unfold daysIn
  split
  · split <;> omega
  all_goals omega

/-- A day of the calendar. -/
structure Date where
  /-- The year. -/
  year : Int
  /-- The month, from 1. -/
  month : Nat
  /-- The day of the month, from 1. -/
  day : Nat
  /-- A year has twelve months. -/
  month_le : 1 ≤ month ∧ month ≤ 12 := by omega
  /-- The month has the day. -/
  day_le : 1 ≤ day ∧ day ≤ daysIn year month
deriving DecidableEq, Repr

namespace Date

/-- The date of a year, a month and a day, if there is one. -/
def of? (year : Int) (month day : Nat) : Option Date :=
  if hm : 1 ≤ month ∧ month ≤ 12 then
    if hd : 1 ≤ day ∧ day ≤ daysIn year month then some { year, month, day, day_le := hd }
    else none
  else none

/-- The date is found from its year, month and day. -/
@[simp] theorem of?_self (d : Date) : of? d.year d.month d.day = some d := by
  rw [of?, dif_pos d.month_le, dif_pos d.day_le]

/-- The day after. -/
def next (d : Date) : Date :=
  if h : d.day < daysIn d.year d.month then
    { d with day := d.day + 1, day_le := by omega }
  else if hm : d.month < 12 then
    { year := d.year, month := d.month + 1, day := 1
      day_le := by have := daysIn_pos d.year (d.month + 1); omega }
  else
    { year := d.year + 1, month := 1, day := 1
      day_le := by have := daysIn_pos (d.year + 1) 1; omega }

/-- The day before. -/
def previous (d : Date) : Date :=
  if h : 1 < d.day then
    { d with day := d.day - 1, day_le := by have := d.day_le; omega }
  else if hm : 1 < d.month then
    { year := d.year, month := d.month - 1, day := daysIn d.year (d.month - 1)
      month_le := by have := d.month_le; omega
      day_le := by have := daysIn_pos d.year (d.month - 1); omega }
  else
    { year := d.year - 1, month := 12, day := 31
      day_le := ⟨by decide, Nat.le_refl 31⟩ }

/-- The days from the 1st of March of year 0 to the first day of an era of 400 years. -/
def daysPerEra : Int := 146097

/-- The date some days after the 1st of January 1970.  Years are counted from March, so that the
    leap day is their last; 719468 days lie between the 1st of March of year 0 and that day. -/
def ofEpochDays? (days : Int) : Option Date :=
  let fromMarch := days + 719468
  let era := fromMarch / daysPerEra
  let inEra := fromMarch % daysPerEra
  let yearOfEra := (inEra - inEra / 1460 + inEra / 36524 - inEra / 146096) / 365
  let dayOfYear := inEra - (365 * yearOfEra + yearOfEra / 4 - yearOfEra / 100)
  let monthFromMarch := (5 * dayOfYear + 2) / 153
  let day := dayOfYear - (153 * monthFromMarch + 2) / 5 + 1
  let month := if monthFromMarch < 10 then monthFromMarch + 3 else monthFromMarch - 9
  let year := yearOfEra + era * 400 + (if month ≤ 2 then 1 else 0)
  of? year month.toNat day.toNat

example : (ofEpochDays? 0).map (fun d => (d.year, d.month, d.day)) = some (1970, 1, 1) ∧
    (ofEpochDays? 19782).map (fun d => (d.year, d.month, d.day)) = some (2024, 2, 29) ∧
    (ofEpochDays? (-1)).map (fun d => (d.year, d.month, d.day)) = some (1969, 12, 31) := by
  decide

end Date

end Dice.Calendar
