namespace Dice.Json

/-!
# JSON values

A value as its text spells it.  Numbers and strings keep their spelling, because what a spelling
means depends on the type that is read.

* `Numeral` — the parts of a number's spelling.
* `Value` — a value.
-/

/-- An exponent of ten: its sign, where one is written, and its digits. -/
structure Exponent where
  /-- The sign, `+` or `-`. -/
  sign : Option Char
  /-- The digits. -/
  digits : List Char
deriving DecidableEq, Repr, Inhabited

/-- The parts of a number's spelling. -/
structure Numeral where
  /-- Whether there is a minus sign. -/
  negative : Bool
  /-- The digits before the point. -/
  whole : List Char
  /-- The digits after the point; without a point there are none. -/
  fraction : List Char
  /-- The exponent of ten, if there is one. -/
  exponent : Option Exponent
deriving DecidableEq, Repr, Inhabited

/-- A value as its text spells it. -/
inductive Value where
  /-- Nothing. -/
  | null
  /-- A truth value. -/
  | bool (b : Bool)
  /-- A number. -/
  | number (n : Numeral)
  /-- A string: the characters between its quotes, with all escapes. -/
  | string (spelling : List Char)
  /-- A list of values. -/
  | array (items : List Value)
  /-- Named values; a name is spelled like a string, and may come twice. -/
  | object (members : List (List Char × Value))
deriving Inhabited

end Dice.Json
