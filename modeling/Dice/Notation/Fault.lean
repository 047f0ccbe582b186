import Dice.Text.Digits
import Dice.Text.Quoted

namespace Dice.Notation

/-!
# Faults in notation

Where a text stops being dice notation, and what would have been needed there.

* `Expected` — what was missing.
* `Fault` — a place in a text, the character found there, and what was expected instead.
* `Fault.locate?` — the fault of a text of which some rest was not read.
* `Fault.message` — the sentence shown to the user.
-/

/-- What a reader of notation needed when it stopped. -/
inductive Expected where
  /-- Some digits. -/
  | number
  /-- A number other than zero. -/
  | nonZero
  /-- A number that fits its field. -/
  | smaller
  /-- One of the two letters. -/
  | mode
  /-- Nothing more. -/
  | ending
deriving DecidableEq, Repr, Inhabited

/-- The words for what was needed. -/
def Expected.description : Expected → String
  | number => "a number"
  | nonZero => "a number greater than zero"
  | smaller => "a smaller number"
  | mode => "'d' or 'u'"
  | ending => "end of input"

/-- The first place where a text is not dice notation. -/
structure Fault where
  /-- How many characters stand before the place. -/
  position : Nat
  /-- The character at the place; there is none at the end of the text. -/
  found : Option Char
  /-- What was needed there. -/
  expected : Expected
deriving DecidableEq, Repr, Inhabited

/-- How many bytes some characters take up. -/
def byteSize : List Char → Nat
  | [] => 0
  | c :: rest => c.utf8Size + byteSize rest

/-- How many characters take up some bytes at the start of a text.  There is no such number if the
    bytes end inside a character or go beyond the text. -/
def charsWithin? : Nat → List Char → Option Nat
  | 0, _ => some 0
  | _ + 1, [] => none
  | bytes + 1, c :: rest =>
    if c.utf8Size ≤ bytes + 1 then (charsWithin? (bytes + 1 - c.utf8Size) rest).map (· + 1)
    else none

namespace Fault

/-- The fault of a text of which some rest was not read.  The text is cut as many bytes before its
    end as the rest has, and the characters before the cut are counted; there is no cut inside a
    character. -/
def locate? (text rest : List Char) (expected : Expected) : Option Fault :=
  (charsWithin? (byteSize text - byteSize rest) text).map fun position =>
    ⟨position, rest.head?, expected⟩

/-- The words for what stands at the place. -/
def foundText (f : Fault) : String :=
  match f.found with
  | some c => Text.quotedChar c
  | none => "end of input"

/-- The sentence that tells the user about a fault. -/
def message (f : Fault) : String :=
  "unexpected " ++ f.foundText ++ " at position " ++ Text.natural f.position ++ ": expected " ++
    f.expected.description

end Fault

end Dice.Notation
