import Dice.Json.Value
import Dice.Text.Digits

namespace Dice.Json

open Dice.Text

/-!
# Reading JSON

Strict JSON: blanks, line ends and tabs around values, no leading zeros, no control characters in
strings, and nothing after the value.

* `skipBlanks` — the text after white space.
* `readString?`, `readNumeral?` — spellings.
* `readValue?` — a value, given a bound on the number of steps.
* `Value.read?` — a whole text.
-/

/-- The text after white space. -/
def skipBlanks (text : List Char) : List Char :=
  text.dropWhile fun c => c = ' ' ∨ c = '\n' ∨ c = '\t' ∨ c = '\r'

/-- The value of a hexadecimal digit. -/
def hexDigit? (c : Char) : Option Nat :=
  if '0' ≤ c ∧ c ≤ '9' then some (c.toNat - 48)
  else if 'a' ≤ c ∧ c ≤ 'f' then some (c.toNat - 87)
  else if 'A' ≤ c ∧ c ≤ 'F' then some (c.toNat - 55)
  else none

/-- Whether a character is a hexadecimal digit. -/
def isHexDigit (c : Char) : Bool := (hexDigit? c).isSome

/-- The spelling of a string up to its closing quote, and the rest.  A backslash needs one of the
    known letters after it, and a `u` four hexadecimal digits. -/
def readString? : List Char → Option (List Char × List Char)
  | [] => none
  | '"' :: rest => some ([], rest)
  | '\\' :: 'u' :: a :: b :: c :: d :: rest =>
    if isHexDigit a && isHexDigit b && isHexDigit c && isHexDigit d then
      (readString? rest).map fun r => ('\\' :: 'u' :: a :: b :: c :: d :: r.1, r.2)
    else none
  | '\\' :: c :: rest =>
    if c ∈ ['"', '\\', '/', 'b', 'f', 'n', 'r', 't'] then
      (readString? rest).map fun r => ('\\' :: c :: r.1, r.2)
    else none
  | c :: rest =>
    if c = '\\' ∨ c.toNat < 32 then none else (readString? rest).map fun r => (c :: r.1, r.2)

/-- The digits before the point, and the rest: a zero, or digits that start with another one. -/
def readWhole? (text : List Char) : Option (List Char × List Char) :=
  match digitRun text with
  | [] => none
  | ['0'] => some (['0'], afterRun text)
  | '0' :: _ => none
  | digits => some (digits, afterRun text)

/-- The digits after the point, and the rest.  A point needs at least one. -/
def readFraction? (text : List Char) : Option (List Char × List Char) :=
  match text with
  | '.' :: rest => if digitRun rest = [] then none else some (digitRun rest, afterRun rest)
  | _ => some ([], text)

/-- The digits of an exponent after its sign, and the rest.  There must be at least one. -/
def readExponentDigits? (sign : Option Char) (text : List Char) :
    Option (Option Exponent × List Char) :=
  if digitRun text = [] then none else some (some ⟨sign, digitRun text⟩, afterRun text)

/-- The exponent, and the rest. -/
def readExponent? (text : List Char) : Option (Option Exponent × List Char) :=
  match text with
  | 'e' :: '+' :: rest | 'E' :: '+' :: rest => readExponentDigits? (some '+') rest
  | 'e' :: '-' :: rest | 'E' :: '-' :: rest => readExponentDigits? (some '-') rest
  | 'e' :: rest | 'E' :: rest => readExponentDigits? none rest
  | _ => some (none, text)

/-- A number without its minus sign, and the rest. -/
def readUnsigned? (negative : Bool) (text : List Char) : Option (Numeral × List Char) := do
  let (whole, text) ← readWhole? text
  let (fraction, text) ← readFraction? text
  let (exponent, text) ← readExponent? text
  some ({ negative, whole, fraction, exponent }, text)

/-- A number, and the rest. -/
def readNumeral? (text : List Char) : Option (Numeral × List Char) :=
  match text with
  | '-' :: rest => readUnsigned? true rest
  | _ => readUnsigned? false text

/-- The text after a character that white space may come before. -/
def expect? (c : Char) (text : List Char) : Option (List Char) :=
  match skipBlanks text with
  | d :: rest => if d = c then some rest else none
  | [] => none

/-- A name and the colon after it, and the rest. -/
def readName? (text : List Char) : Option (List Char × List Char) := do
  let text ← expect? '"' text
  let (name, text) ← readString? text
  let text ← expect? ':' text
  some (name, text)

mutual

/-- A value, and the rest. -/
def readValue? : Nat → List Char → Option (Value × List Char)
  | 0, _ => none
  | steps + 1, text =>
    match skipBlanks text with
    | 'n' :: 'u' :: 'l' :: 'l' :: rest => some (.null, rest)
    | 't' :: 'r' :: 'u' :: 'e' :: rest => some (.bool true, rest)
    | 'f' :: 'a' :: 'l' :: 's' :: 'e' :: rest => some (.bool false, rest)
    | '"' :: rest => (readString? rest).map fun r => (.string r.1, r.2)
    | '[' :: rest =>
      match expect? ']' rest with
      | some rest => some (.array [], rest)
      | none => do
        let (v, rest) ← readValue? steps rest
        let (items, rest) ← readItems? steps rest
        some (.array (v :: items), rest)
    | '\x7b' :: rest =>
      match expect? '\x7d' rest with
      | some rest => some (.object [], rest)
      | none => do
        let (name, rest) ← readName? rest
        let (v, rest) ← readValue? steps rest
        let (members, rest) ← readMembers? steps rest
        some (.object ((name, v) :: members), rest)
    | text => (readNumeral? text).map fun r => (.number r.1, r.2)

/-- The items after an item of a list, and what follows the end of the list. -/
def readItems? : Nat → List Char → Option (List Value × List Char)
  | 0, _ => none
  | steps + 1, text =>
    match skipBlanks text with
    | ']' :: rest => some ([], rest)
    | ',' :: rest => do
      let (v, rest) ← readValue? steps rest
      let (items, rest) ← readItems? steps rest
      some (v :: items, rest)
    | _ => none

/-- The named values after a named value, and what follows the end of the object. -/
def readMembers? : Nat → List Char → Option (List (List Char × Value) × List Char)
  | 0, _ => none
  | steps + 1, text =>
    match skipBlanks text with
    | '\x7d' :: rest => some ([], rest)
    | ',' :: rest => do
      let (name, rest) ← readName? rest
      let (v, rest) ← readValue? steps rest
      let (members, rest) ← readMembers? steps rest
      some ((name, v) :: members, rest)
    | _ => none

end

/-- The value of the characters of a text.  Every step but the first is preceded by a character
    that no other step reads. -/
def Value.readChars? (text : List Char) : Option Value := do
  let (v, rest) ← readValue? (text.length + 1) text
  if skipBlanks rest = [] then some v else none

/-- The value of a text. -/
def Value.read? (text : String) : Option Value :=
  readChars? text.toList

end Dice.Json
