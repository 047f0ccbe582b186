import Dice.Json.Value

namespace Dice.Json

/-!
# Writing JSON

* `Layout` — everything on one line, or a line for each item with two more blanks per level.
* `Value.print` — the characters of a value.
* `Value.text` — its text.
-/

/-- How values are laid out. -/
inductive Layout where
  /-- On one line without blanks. -/
  | compact
  /-- A line for each item. -/
  | pretty
deriving DecidableEq, Repr

/-- What stands before an item, and before the end of a list of items, at some level. -/
def Layout.lineStart : Layout → Nat → List Char
  | compact, _ => []
  | pretty, level => '\n' :: List.replicate (2 * level) ' '

/-- What stands between a name and its value. -/
def Layout.colon : Layout → List Char
  | compact => [':']
  | pretty => [':', ' ']

/-- The characters of an exponent. -/
def Exponent.print (e : Exponent) : List Char :=
  'e' :: e.sign.toList ++ e.digits

/-- The characters of a number. -/
def Numeral.print (n : Numeral) : List Char :=
  (if n.negative then ['-'] else []) ++ n.whole ++
    (if n.fraction = [] then [] else '.' :: n.fraction) ++
    (n.exponent.map Exponent.print).getD []

/-- The characters of a spelling with its quotes. -/
def printString (spelling : List Char) : List Char :=
  '"' :: spelling ++ ['"']

mutual

/-- The characters of a value at some level. -/
def Value.print (l : Layout) (level : Nat) : Value → List Char
  | .null => "null".toList
  | .bool true => "true".toList
  | .bool false => "false".toList
  | .number n => n.print
  | .string spelling => printString spelling
  | .array [] => "[]".toList
  | .array (v :: rest) =>
    '[' :: l.lineStart (level + 1) ++ v.print l (level + 1) ++ printItems l level rest
  | .object [] => "\x7b\x7d".toList
  | .object ((name, v) :: rest) =>
    '\x7b' :: l.lineStart (level + 1) ++ printString name ++ l.colon ++ v.print l (level + 1) ++
      printMembers l level rest

/-- The characters after an item of a list: the other items and the end. -/
def printItems (l : Layout) (level : Nat) : List Value → List Char
  | [] => l.lineStart level ++ [']']
  | v :: rest =>
    ',' :: l.lineStart (level + 1) ++ v.print l (level + 1) ++ printItems l level rest

/-- The characters after a named value: the other ones and the end. -/
def printMembers (l : Layout) (level : Nat) : List (List Char × Value) → List Char
  | [] => l.lineStart level ++ ['\x7d']
  | (name, v) :: rest =>
    ',' :: l.lineStart (level + 1) ++ printString name ++ l.colon ++ v.print l (level + 1) ++
      printMembers l level rest

end

/-- The text of a value. -/
def Value.text (l : Layout) (v : Value) : String :=
  String.ofList (v.print l 0)

end Dice.Json
