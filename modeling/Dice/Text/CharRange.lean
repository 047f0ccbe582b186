namespace Dice.Text

/-!
# Ranges of code points

Character properties are tables of ranges in ascending order.

* `CharRange` — the first and the last code point of a range.
* `CharRange.covers` — whether one of the ranges holds a code point.
-/

/-- The first and the last code point of a range. -/
abbrev CharRange := Nat × Nat

namespace CharRange

/-- Whether a code point lies in one of the ranges.  The ranges ascend, so the search ends at the
    first range that starts beyond it. -/
def covers : List CharRange → Nat → Bool
  | [], _ => false
  | (first, last) :: rest, n =>
    if n < first then false else if n ≤ last then true else covers rest n

end CharRange

end Dice.Text
