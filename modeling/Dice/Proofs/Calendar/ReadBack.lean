import Dice.Calendar.Reader
import Dice.Calendar.Written
import Dice.Proofs.Decimal.Digits

namespace Dice.Calendar

open Dice.Decimal Dice.Notation Dice.Text

/-!
# Points in time are read back

The reader takes the text of a point in time for that point in time, to the billionth of a second,
in every year and also within a leap second.

* `number?_zeroPadded`, `year?_yearText`, `fraction?_fractionText` — the fields.
* `date?_text`, `timeOfDay?_text`, `ofLocal?_zero` — the parts.
* `Timestamp.read?_text` — a whole text.
-/

/-! ### Fields -/

/-- A run of digits has no white space before it. -/
theorem trimStart_run {run : List Char} (hrun : IsRun run) (hne : run ≠ []) (rest : List Char) :
    trimStart (run ++ rest) = run ++ rest := by
  obtain ⟨c, run, rfl⟩ := List.exists_cons_of_ne_nil hne
  exact trimStart_cons (isBlank_eq_false_of_isDigit (hrun c List.mem_cons_self)) _

/-- A field that is padded to its width is read back, whatever comes after it. -/
theorem number?_zeroPadded (width n : Nat) (hwidth : 0 < width) (h : n < 10 ^ width)
    (rest : List Char) : number? width ((zeroPadded width n).toList ++ rest) = some (n, rest) := by
  have hrun := isRun_zeroPadded width n
  have hne := zeroPadded_ne_nil width n
  have hlength := length_zeroPadded hwidth h
  have htake : (digitRun ((zeroPadded width n).toList ++ rest)).take width =
      (zeroPadded width n).toList := by
    rw [digitRun, List.takeWhile_append_of_pos hrun]
    exact List.take_left' hlength
  simp only [number?, trimStart_run hrun hne, htake, if_neg hne, value_zeroPadded,
    List.drop_left]

/-- A character that is no blank is found where it stands. -/
theorem after?_cons {c : Char} (h : isBlank c = false) (rest : List Char) :
    after? c (c :: rest) = some rest := by
  simp [after?, trimStart_cons h]

/-- A whole run of digits is read as one number. -/
theorem digits?_append {run rest : List Char} (hrun : IsRun run) (hne : run ≠ [])
    (hrest : digitRun rest = []) : digits? (run ++ rest) = some (value run, rest) := by
  rw [digits?, digitRun_append hrun hrest, afterRun_append hrun hrest, if_neg hne]

/-- Years before year 0 and after year 9999 are read back by their sign. -/
theorem year?_yearText (year : Int) {rest : List Char} (hrest : digitRun rest = []) :
    year? ((yearText year).toList ++ rest) = some (year, rest) := by
  by_cases hplain : 0 ≤ year ∧ year ≤ 9999
  · have hyear : (year.toNat : Int) = year := Int.toNat_of_nonneg hplain.1
    have hread := number?_zeroPadded 4 year.toNat (by decide) (by omega) rest
    have hrun := isRun_zeroPadded 4 year.toNat
    have hne := zeroPadded_ne_nil 4 year.toNat
    rw [yearText, if_pos hplain, year?, trimStart_run hrun hne]
    obtain ⟨c, digits, hdigits⟩ := List.exists_cons_of_ne_nil hne
    have hdigit : c.isDigit = true := hrun c (hdigits ▸ List.mem_cons_self)
    rw [hdigits, List.cons_append] at hread ⊢
    split
    · next heq => obtain ⟨rfl, -⟩ := List.cons.inj heq; cases hdigit
    · next heq => obtain ⟨rfl, -⟩ := List.cons.inj heq; cases hdigit
    · rw [hread, Option.map_some]
      exact congrArg (fun y => some (y, rest)) hyear
  · have hread := digits?_append (isRun_zeroPadded 4 year.natAbs) (zeroPadded_ne_nil 4 year.natAbs)
      hrest
    rw [value_zeroPadded] at hread
    rw [yearText, if_neg hplain, String.toList_append, List.append_assoc]
    by_cases hneg : year < 0
    · rw [if_pos hneg]
      have htrim : trimStart ("-".toList ++ ((zeroPadded 4 year.natAbs).toList ++ rest)) =
          '-' :: ((zeroPadded 4 year.natAbs).toList ++ rest) := trimStart_cons (by decide) _
      simp only [year?, htrim, hread, Option.map_some, Option.some.injEq, Prod.mk.injEq, and_true]
      omega
    · rw [if_neg hneg]
      have htrim : trimStart ("+".toList ++ ((zeroPadded 4 year.natAbs).toList ++ rest)) =
          '+' :: ((zeroPadded 4 year.natAbs).toList ++ rest) := trimStart_cons (by decide) _
      simp only [year?, htrim, hread, Option.map_some, Option.some.injEq, Prod.mk.injEq, and_true]
      omega

/-- Digits after the point that make up all billionths are read back. -/
theorem fraction?_point {places units : Nat} (hplaces : 0 < places) (hle : places ≤ 9)
    (h : units < 10 ^ places) {rest : List Char} (hrest : digitRun rest = []) :
    fraction? ('.' :: ((zeroPadded places units).toList ++ rest)) =
      some (units * 10 ^ (9 - places), rest) := by
  have hrun := isRun_zeroPadded places units
  have hlength := length_zeroPadded hplaces h
  rw [fraction?, digitRun_append hrun hrest, afterRun_append hrun hrest,
    if_neg (zeroPadded_ne_nil places units), billionths, List.take_of_length_le (by omega), hlength,
    value_zeroPadded]
  rfl

/-- Billionths are read back, whichever number of places they are written with. -/
theorem fraction?_fractionText {nanos : Nat} (h : nanos < 1000000000) {rest : List Char}
    (hrest : digitRun rest = []) (hpoint : rest.head? ≠ some '.') :
    fraction? ((fractionText nanos).toList ++ rest) = some (nanos, rest) := by
  have hplaces : ∀ places units, 0 < places → places ≤ 9 → units < 10 ^ places →
      units * 10 ^ (9 - places) = nanos →
      fraction? (("." ++ zeroPadded places units).toList ++ rest) = some (nanos, rest) := by
    intro places units hpos hle hunits hnanos
    rw [String.toList_append, ← hnanos]
    exact fraction?_point hpos hle hunits hrest
  unfold fractionText
  split
  · next hzero =>
    subst hzero
    unfold fraction?
    split
    · next heq => exact absurd (congrArg List.head? heq) hpoint
    · rfl
  · split
    · exact hplaces 3 _ (by decide) (by decide) (by omega) (by omega)
    · split
      · exact hplaces 6 _ (by decide) (by decide) (by omega) (by omega)
      · exact hplaces 9 _ (by decide) (by decide) (by omega) (by omega)

/-! ### Parts -/

/-- A date is read back. -/
theorem date?_text {d : Date} (hyear : minYear ≤ d.year ∧ d.year ≤ maxYear) (rest : List Char) :
    date? (d.text.toList ++ rest) = some (d, rest) := by
  have hmonth := d.month_le
  have hday : d.day ≤ 31 := by
    have hdays : ∀ month, daysIn d.year month ≤ 31 := by
      intro month
      unfold daysIn
      split
      · split <;> omega
      all_goals omega
    exact Nat.le_trans d.day_le.2 (hdays d.month)
  have htext : d.text.toList ++ rest =
      (yearText d.year).toList ++ '-' :: ((zeroPadded 2 d.month).toList ++
        '-' :: ((zeroPadded 2 d.day).toList ++ rest)) := by
    simp [Date.text]
  have hread : ∀ rest,
      year? ((yearText d.year).toList ++ '-' :: rest) = some (d.year, '-' :: rest) :=
    fun _ => year?_yearText d.year rfl
  rw [htext]
  simp only [date?, hread, after?_cons (c := '-') (by decide),
    number?_zeroPadded 2 d.month (by decide) (by omega),
    number?_zeroPadded 2 d.day (by decide) (by omega), Option.bind_eq_bind,
    Option.bind_some, Date.of?_self, if_pos hyear]

/-- A time of day is read back. -/
theorem timeOfDay?_text (t : TimeOfDay) {rest : List Char} (hrest : digitRun rest = [])
    (hpoint : rest.head? ≠ some '.') : timeOfDay? (t.text.toList ++ rest) = some (t, rest) := by
  have hhour := t.hour_lt
  have hminute := t.minute_lt
  have hsecond := t.second_le
  have htext : t.text.toList ++ rest =
      (zeroPadded 2 t.hour).toList ++ ':' :: ((zeroPadded 2 t.minute).toList ++
        ':' :: ((zeroPadded 2 t.second).toList ++ ((fractionText t.nanos).toList ++ rest))) := by
    simp [TimeOfDay.text]
  rw [htext]
  simp only [timeOfDay?, after?_cons (c := ':') (by decide),
    number?_zeroPadded 2 t.hour (by decide) (by omega),
    number?_zeroPadded 2 t.minute (by decide) (by omega),
    number?_zeroPadded 2 t.second (by decide) (by omega),
    fraction?_fractionText t.nanos_lt hrest hpoint, Option.bind_eq_bind, Option.bind_some,
    TimeOfDay.of?_self]

/-- A date and a time of day that are not away from universal time are those of the point. -/
theorem Timestamp.ofLocal?_zero (t : Timestamp) : ofLocal? t.date t.time 0 = some t := by
  have hhour := t.time.hour_lt
  have hminute := t.time.minute_lt
  have hday : ((60 * t.time.hour + t.time.minute - 0 : Int) % 1440).toNat =
      60 * t.time.hour + t.time.minute := by omega
  have hhours : (60 * t.time.hour + t.time.minute) / 60 = t.time.hour := by omega
  have hminutes : (60 * t.time.hour + t.time.minute) % 60 = t.time.minute := by omega
  rw [ofLocal?]
  simp only [hday, hhours, hminutes, TimeOfDay.of?_self, Option.bind_some]
  rw [if_neg (by omega), if_pos (by omega), of?_self]

/-- A point in time is read back. -/
theorem Timestamp.read?_text (t : Timestamp) : read? t.text = some t := by
  have htext : t.text.toList = t.date.text.toList ++ 'T' :: (t.time.text.toList ++ ['Z']) := by
    simp [text]
  have htime : timeOfDay? (t.time.text.toList ++ ['Z']) = some (t.time, ['Z']) :=
    timeOfDay?_text t.time rfl (by decide)
  have hdistance : distance? (trimStart ['Z']) = some (0, []) := by decide
  rw [read?, htext]
  simp only [readChars?, date?_text t.year_le, htime, hdistance, Option.bind_eq_bind,
    Option.bind_some, ofLocal?_zero]
  rfl

end Dice.Calendar
