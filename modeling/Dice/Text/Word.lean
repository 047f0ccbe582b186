import Dice.Text.Digits

namespace Dice.Text

/-!
# Words in decimal

* `wordOf?` — the word of 64 bits that a text writes.
-/

/-- The word of 64 bits that some characters write in decimal.  A plus sign may come first, and
    leading zeros do not count. -/
def wordOf? (text : List Char) : Option Nat :=
  let digits := match text with
    | '+' :: rest => rest
    | _ => text
  if digits ≠ [] ∧ digits.all Char.isDigit ∧ value digits < UInt64.size then some (value digits)
  else none

example : wordOf? "+007".toList = some 7 ∧
    wordOf? "18446744073709551615".toList = some (UInt64.size - 1) ∧
    wordOf? "18446744073709551616".toList = none ∧ wordOf? "-1".toList = none ∧
    wordOf? "".toList = none ∧ wordOf? "++1".toList = none := by decide +kernel

end Dice.Text
