namespace Dice.Text

/-!
# Lines of bytes

* `byteLines` — the lines of some bytes.
* `lineText?` — a line as text.
-/

/-- The lines of some bytes, without the line feeds that end them.  After the last line feed there
    is a line only if there are bytes. -/
def byteLines (bytes : List UInt8) : List (List UInt8) :=
  let parts := bytes.splitOn 10
  if parts.getLast? = some [] then parts.dropLast else parts

/-- The text of a line; there is none if the line is not UTF-8. -/
def lineText? (line : List UInt8) : Option String :=
  String.fromUTF8? line.toByteArray

example : byteLines [] = [] ∧ byteLines [10] = [[]] ∧ byteLines [97, 10] = [[97]] ∧
    byteLines [97, 10, 10, 98] = [[97], [], [98]] := by decide

end Dice.Text
