import Dice.Calendar.Timestamp
import Dice.Text.Blank
import Dice.Text.Digits

namespace Dice.Calendar

open Dice.Text

/-!
# Reading points in time

A point in time is a date, a letter `T` or a blank, a time of day and the distance from universal
time.  The reader is lenient: white space may stand around fields, fields may lack leading zeros,
and the distance may be named.

* `number?` — a field.
* `date?`, `timeOfDay?`, `distance?` — the parts, each with the rest of the text.
* `Timestamp.read?` — a whole text.
-/

/-- A number of at most some digits after white space, and the rest. -/
def number? (width : Nat) (text : List Char) : Option (Nat × List Char) :=
  let text := trimStart text
  let digits := (digitRun text).take width
  if digits = [] then none else some (value digits, text.drop digits.length)

/-- The text after a character that white space may come before. -/
def after? (c : Char) (text : List Char) : Option (List Char) :=
  match trimStart text with
  | d :: rest => if d = c then some rest else none
  | [] => none

/-- A number of any length, and the rest. -/
def digits? (text : List Char) : Option (Nat × List Char) :=
  if digitRun text = [] then none else some (value (digitRun text), afterRun text)

/-- A year: four digits at most, or any number of them after a sign. -/
def year? (text : List Char) : Option (Int × List Char) :=
  match trimStart text with
  | '-' :: rest => (digits? rest).map fun (n, rest) => (-(n : Int), rest)
  | '+' :: rest => (digits? rest).map fun (n, rest) => ((n : Int), rest)
  | text => (number? 4 text).map fun (n, rest) => ((n : Int), rest)

/-- A date within the years that have points in time, and the rest. -/
def date? (text : List Char) : Option (Date × List Char) := do
  let (year, text) ← year? text
  let text ← after? '-' text
  let (month, text) ← number? 2 text
  let text ← after? '-' text
  let (day, text) ← number? 2 text
  let date ← Date.of? year month day
  if minYear ≤ year ∧ year ≤ maxYear then some (date, text) else none

/-- The billionths that a run of digits after the point stands for; digits beyond the ninth are
    dropped. -/
def billionths (digits : List Char) : Nat :=
  value (digits.take 9) * Nat.pow 10 (9 - digits.length)

/-- The billionths of a second, and the rest.  Without a point there are none. -/
def fraction? (text : List Char) : Option (Nat × List Char) :=
  match text with
  | '.' :: rest =>
    if digitRun rest = [] then none else some (billionths (digitRun rest), afterRun rest)
  | _ => some (0, text)

/-- A time of day, and the rest. -/
def timeOfDay? (text : List Char) : Option (TimeOfDay × List Char) := do
  let (hour, text) ← number? 2 text
  let text ← after? ':' text
  let (minute, text) ← number? 2 text
  let text ← after? ':' text
  let (second, text) ← number? 2 text
  let (nanos, text) ← fraction? text
  let time ← TimeOfDay.of? hour minute second nanos
  some (time, text)

/-- Exactly two digits, and the rest. -/
def twoDigits? (text : List Char) : Option (Nat × List Char) :=
  match text with
  | a :: b :: rest => if a.isDigit && b.isDigit then some (value [a, b], rest) else none
  | _ => none

/-- Hours and minutes as minutes, and the rest.  Colons and white space may stand between. -/
def hoursMinutes? (text : List Char) : Option (Nat × List Char) := do
  let (hours, text) ← twoDigits? text
  let (minutes, text) ← twoDigits? (text.dropWhile fun c => c == ':' || isBlank c)
  if minutes < 60 then some (60 * hours + minutes, text) else none

/-- The distance from universal time in minutes, and the rest: a letter `Z`, the name of universal
    time, or a sign with hours and minutes. -/
def distance? (text : List Char) : Option (Int × List Char) :=
  if (text.take 3).map Char.toUpper = ['U', 'T', 'C'] then some (0, text.drop 3)
  else match text with
    | 'Z' :: rest | 'z' :: rest => some (0, rest)
    | '+' :: rest => (hoursMinutes? rest).map fun (n, rest) => ((n : Int), rest)
    | '-' :: rest | '−' :: rest => (hoursMinutes? rest).map fun (n, rest) => (-(n : Int), rest)
    | _ => none

/-- The point in universal time of a local date and time at a distance of less than a day. -/
def Timestamp.ofLocal? (date : Date) (time : TimeOfDay) (distance : Int) : Option Timestamp :=
  let minutes := 60 * time.hour + time.minute - distance
  let date := if minutes < 0 then date.previous else if minutes < 1440 then date else date.next
  let ofDay := (minutes % 1440).toNat
  (TimeOfDay.of? (ofDay / 60) (ofDay % 60) time.second time.nanos).bind (of? date)

/-- The point in time of the characters of a text. -/
def Timestamp.readChars? (text : List Char) : Option Timestamp := do
  let (date, text) ← date? text
  let text ← match text with
    | 'T' :: rest | 't' :: rest | ' ' :: rest => some rest
    | _ => none
  let (time, text) ← timeOfDay? text
  let (distance, text) ← distance? (trimStart text)
  if trimStart text = [] ∧ distance.natAbs < 1440 then Timestamp.ofLocal? date time distance
  else none

/-- The point in time of a text. -/
def Timestamp.read? (text : String) : Option Timestamp :=
  readChars? text.toList

end Dice.Calendar
