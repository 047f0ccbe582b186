import Dice.Notation.Fault
import Dice.Pool

namespace Dice.Notation

open Dice.Text

/-!
# Reading dice notation

A text is notation if it is an optional number of dice, a letter, a number of faces and an optional
offset, and nothing else.  Numbers are runs of ASCII digits of any length.  A number
that is missing, zero or too great is a fault at the place where its digits start.

* `Place`, `Stop` — what has not been read of a text, and what was needed where reading stops.
* `readCount`, `readMode`, `readFaces`, `readOffset` — the four parts.
* `readParts` — all of them.
* `Pool.read` — a whole text; where reading stops, the fault is found by counting bytes.
-/

/-- A place in a text: the characters from the place on. -/
structure Place where
  /-- The characters that have not been read. -/
  rest : List Char
deriving DecidableEq, Repr

/-- Where a reader stops, and what it needed there. -/
structure Stop where
  /-- The characters that have not been read. -/
  rest : List Char
  /-- What was needed. -/
  expected : Expected
deriving DecidableEq, Repr

namespace Place

/-- The place after the next character. -/
def next (p : Place) : Place := ⟨p.rest.tail⟩

/-- The digits at a place. -/
def digits (p : Place) : List Char := digitRun p.rest

/-- The place after the digits at a place. -/
def afterDigits (p : Place) : Place := ⟨afterRun p.rest⟩

/-- Stopping at a place for not finding what was needed. -/
def stop (p : Place) (expected : Expected) : Stop := ⟨p.rest, expected⟩

end Place

/-- The fault of a text at which a reader stops.  What is left is an end of the text, so there always
    is a place where it starts, and the default is not used. -/
def Stop.fault (text : List Char) (s : Stop) : Fault :=
  (Fault.locate? text s.rest s.expected).getD default

/-- The number at a place, which has some digits and is no greater than a limit. -/
def readNumber (limit : Nat) (p : Place) : Except Stop Nat :=
  if p.digits = [] then .error (p.stop .number)
  else if value p.digits ≤ limit then .ok (value p.digits)
  else .error (p.stop .smaller)

/-- The greatest number of dice, and of faces. -/
def maxCount : Nat := UInt32.size - 1

/-- The greatest offset in either direction. -/
def maxOffset : Nat := UInt32.size / 2 - 1

/-- The number at a place, which is at least 1 and fits a field of 32 bits. -/
def readPositive (p : Place) : Except Stop UInt32 := do
  let n ← readNumber maxCount p
  if n = 0 then .error (p.stop .nonZero) else .ok (UInt32.ofNat n)

/-- The number of dice, which is 1 where none is written. -/
def readCount (p : Place) : Except Stop (UInt32 × Place) :=
  if p.digits = [] then .ok (1, p)
  else do
    let n ← readPositive p
    .ok (n, p.afterDigits)

/-- The letter. -/
def readMode (p : Place) : Except Stop (Mode × Place) :=
  match p.rest.head?.bind Mode.ofLetter? with
  | some mode => .ok (mode, p.next)
  | none => .error (p.stop .mode)

/-- The number of faces. -/
def readFaces (p : Place) : Except Stop (UInt32 × Place) := do
  let n ← readPositive p
  .ok (n, p.afterDigits)

/-- The offset, which is 0 where none is written.  After a sign there must be a number.  A number
    without a sign counts as an offset as well, but no digits are left where an offset is read. -/
def readOffset (p : Place) : Except Stop (Int32 × Place) :=
  match p.rest with
  | '+' :: _ => do
    let n ← readNumber maxOffset p.next
    .ok (Int32.ofNat n, p.next.afterDigits)
  | '-' :: _ => do
    let n ← readNumber maxOffset p.next
    .ok (-Int32.ofNat n, p.next.afterDigits)
  | _ =>
    if p.digits = [] then .ok (0, p)
    else do
      let n ← readNumber maxOffset p
      .ok (Int32.ofNat n, p.afterDigits)

/-- The pool that the characters of a text describe, or where reading them stops. -/
def readParts (text : List Char) : Except Stop Pool := do
  let (count, p) ← readCount ⟨text⟩
  let (mode, p) ← readMode p
  let (faces, p) ← readFaces p
  let (offset, p) ← readOffset p
  if p.rest = [] then .ok { count, mode, faces, offset } else .error (p.stop .ending)

/-- The pool that the characters of a text describe, or the first place where they are not
    notation. -/
def readChars (text : List Char) : Except Fault Pool :=
  (readParts text).mapError (·.fault text)

end Dice.Notation

/-- The pool that a text describes, or the first place where it is not notation. -/
def Dice.Pool.read (text : String) : Except Dice.Notation.Fault Dice.Pool :=
  Dice.Notation.readChars text.toList
