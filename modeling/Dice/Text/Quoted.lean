import Dice.Text.Extending
import Dice.Text.Ignorable
import Dice.Text.Unprintable

namespace Dice.Text

/-!
# Text between quotes

How messages show a character or a text that the user typed: between quotes, with all that would
not be visible escaped.

* `isElusive` — the characters that are escaped.
* `escaped` — a character inside quotes.
* `quotedChar`, `quoted` — a character between single quotes, a text between double quotes.
-/

/-- The code point of a character in lower-case hexadecimal digits, without leading zeros. -/
def hexCode (c : Char) : List Char :=
  Nat.toDigits 16 c.toNat

/-- Whether a character would be lost between quotes: it has no glyph, or may not be shown at all,
    or joins the character before it. -/
def isElusive (c : Char) : Bool :=
  isExtending c || isIgnorable c || isUnprintable c

/-- A character as shown between quotes.  The quote itself, the backslash and four controls have
    short escapes; another character that would be lost is written by its code point. -/
def escaped (quote : Char) (c : Char) : List Char :=
  if c = '\x00' then ['\\', '0']
  else if c = '\t' then ['\\', 't']
  else if c = '\r' then ['\\', 'r']
  else if c = '\n' then ['\\', 'n']
  else if c = quote ∨ c = '\\' then ['\\', c]
  else if isElusive c then ['\\', 'u', '\x7b'] ++ hexCode c ++ ['\x7d']
  else [c]

/-- A character between single quotes. -/
def quotedChar (c : Char) : String :=
  String.ofList (['\''] ++ escaped '\'' c ++ ['\''])

/-- A text between double quotes. -/
def quoted (text : String) : String :=
  String.ofList (['"'] ++ text.toList.flatMap (escaped '"') ++ ['"'])

example : quotedChar '\'' = "'\\''" ∧ quotedChar '"' = "'\"'" ∧ quoted "'\"\\" = "\"'\\\"\\\\\"" := by
  decide +kernel

example : quotedChar '\u0301' = "'\\u\x7b301\x7d'" ∧ quotedChar 'é' = "'é'" ∧
    quotedChar '\u3164' = "'\\u\x7b3164\x7d'" ∧ quotedChar 'ﾞ' = "'ﾞ'" := by decide +kernel

end Dice.Text
