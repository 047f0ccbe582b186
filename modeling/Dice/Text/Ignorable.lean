import Dice.Text.CharRange

namespace Dice.Text

/-!
# Ignorable characters

The characters of the Unicode property Default_Ignorable_Code_Point: joiners, fillers, variation
selectors and the like, which nothing is shown for where they are not supported.

* `ignorableRanges` — the table.
* `isIgnorable` — membership in it.
-/

/-- The code points with the property, as ranges in ascending order. -/
def ignorableRanges : List CharRange :=
  [(0xad, 0xad), (0x34f, 0x34f), (0x61c, 0x61c), (0x115f, 0x1160), (0x17b4, 0x17b5),
   (0x180b, 0x180f), (0x200b, 0x200f), (0x202a, 0x202e), (0x2060, 0x206f), (0x3164, 0x3164),
   (0xfe00, 0xfe0f), (0xfeff, 0xfeff), (0xffa0, 0xffa0), (0xfff0, 0xfff8), (0x1bca0, 0x1bca3),
   (0x1d173, 0x1d17a), (0xe0000, 0xe0fff)]

/-- Whether nothing is shown for a character where it is not supported. -/
def isIgnorable (c : Char) : Bool :=
  CharRange.covers ignorableRanges c.toNat

/-- No character of ASCII is ignorable. -/
example : (List.range 128).all (fun n => ! isIgnorable (Char.ofNat n)) = true := by decide

end Dice.Text
